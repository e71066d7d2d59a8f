import Mathlib.Data.List.Basic
import Mathlib.Tactic.Ring

/-!
# The protobuf wire format

A message on the wire is a list of fields, each a tag and a value. `encode` writes
them the canonical way, `parse` reads any message, and `parse_encode` says that
nothing is lost between the two. A `Field` carries the range of its number, so that
every field can be written.
-/

namespace Protobuf

/-! ## Varints -/

/-- A number in base 128, least significant digit first; every byte but the last has
its high bit set. -/
def groups : Nat → Nat → List UInt8
  | 0, _ => []
  | fuel + 1, n =>
    if n < 128 then [UInt8.ofNat n] else UInt8.ofNat (n % 128 + 128) :: groups fuel (n / 128)

/-- The shortest varint of a 64-bit number. -/
def varint (v : UInt64) : List UInt8 := groups 10 v.toNat

/-- At most `fuel` groups off the front of a buffer: their value and their number. -/
def readGroups : Nat → List UInt8 → Option (Nat × Nat)
  | 0, _ => none
  | _ + 1, [] => none
  | fuel + 1, b :: bs =>
    if b.toNat < 128 then some (b.toNat, 1)
    else
      match readGroups fuel bs with
      | none => none
      | some (n, size) => some (b.toNat - 128 + 128 * n, size + 1)

/-- A varint of at most ten bytes and its size. Bits above the 64th are dropped. -/
def readVarint (bs : List UInt8) : Option (UInt64 × Nat) :=
  (readGroups 10 bs).map fun (n, size) => (UInt64.ofNat n, size)

theorem readGroups_groups {fuel n : Nat} (h : n < 128 ^ (fuel + 1)) (after : List UInt8) :
    readGroups (fuel + 1) (groups (fuel + 1) n ++ after) =
      some (n, (groups (fuel + 1) n).length) := by
  induction fuel generalizing n with
  | zero =>
      have hlast : n < 128 := by simpa using h
      have hbyte : (UInt8.ofNat n).toNat = n := by
        rw [UInt8.toNat_ofNat']
        omega
      simp only [groups, if_pos hlast, List.cons_append, readGroups, hbyte]
      rfl
  | succ fuel ih =>
      rw [groups]
      by_cases hlast : n < 128
      · have hbyte : (UInt8.ofNat n).toNat = n := by
          rw [UInt8.toNat_ofNat']
          omega
        simp only [if_pos hlast, List.cons_append, readGroups, hbyte]
        rfl
      · have hbyte : (UInt8.ofNat (n % 128 + 128)).toNat = n % 128 + 128 := by
          rw [UInt8.toNat_ofNat']
          omega
        have hrest : n / 128 < 128 ^ (fuel + 1) := by
          rw [Nat.div_lt_iff_lt_mul (by decide), ← Nat.pow_succ]
          exact h
        have hmore : ¬ n % 128 + 128 < 128 := by omega
        have hvalue : n % 128 + 128 - 128 + 128 * (n / 128) = n := by omega
        simp only [if_neg hlast, List.cons_append, readGroups, hbyte, if_neg hmore, ih hrest,
          hvalue, List.length_cons]

theorem readVarint_varint (v : UInt64) (after : List UInt8) :
    readVarint (varint v ++ after) = some (v, (varint v).length) := by
  have hv : v.toNat < 128 ^ 10 := Nat.lt_trans v.toNat_lt (by decide)
  rw [readVarint, varint, readGroups_groups hv]
  simp only [Option.map_some, UInt64.ofNat_toNat]

theorem readGroups_size {fuel : Nat} {bs : List UInt8} {n size : Nat}
    (h : readGroups fuel bs = some (n, size)) : 0 < size ∧ size ≤ bs.length ∧ size ≤ fuel := by
  induction fuel generalizing bs n size with
  | zero => cases h
  | succ fuel ih =>
      cases bs with
      | nil => cases h
      | cons b bs =>
          simp only [readGroups] at h
          split at h
          · cases h
            simp
          · split at h
            · cases h
            · rename_i hrest
              cases h
              obtain ⟨-, hle, hfuel⟩ := ih hrest
              simp only [List.length_cons]
              omega

/-- A varint takes between one and ten bytes of the buffer. -/
theorem readVarint_size {bs : List UInt8} {v : UInt64} {size : Nat}
    (h : readVarint bs = some (v, size)) : 0 < size ∧ size ≤ bs.length ∧ size ≤ 10 := by
  obtain ⟨⟨n, size'⟩, hgroups, heq⟩ := Option.map_eq_some_iff.mp h
  cases heq
  exact readGroups_size hgroups

theorem length_varint_pos (v : UInt64) : 0 < (varint v).length :=
  (readVarint_size (readVarint_varint v [])).1

/-! ### The shortest form -/

theorem length_groups (fuel n : Nat) : (groups fuel n).length ≤ fuel := by
  induction fuel generalizing n with
  | zero => exact Nat.le_refl 0
  | succ fuel ih =>
      rw [groups]
      split
      · exact Nat.succ_le_succ (Nat.zero_le fuel)
      · exact Nat.succ_le_succ (ih _)

/-- Digits that a number does not have are not written. -/
theorem groups_enough {fuel more n : Nat} (h : n < 128 ^ (fuel + 1)) :
    groups (fuel + 1 + more) n = groups (fuel + 1) n := by
  induction fuel generalizing n with
  | zero =>
      have hlast : n < 128 := by simpa using h
      rw [Nat.add_right_comm, groups, groups, if_pos hlast, if_pos hlast]
  | succ fuel ih =>
      have hrest : n / 128 < 128 ^ (fuel + 1) := by
        rw [Nat.div_lt_iff_lt_mul (by decide), ← Nat.pow_succ]
        exact h
      rw [Nat.add_right_comm, groups, groups, ih hrest]

/-- What is read in `size` groups is a number of at most that many digits. -/
theorem readGroups_lt {fuel : Nat} {bs : List UInt8} {n size : Nat}
    (h : readGroups fuel bs = some (n, size)) : n < 128 ^ size := by
  induction fuel generalizing bs n size with
  | zero => cases h
  | succ fuel ih =>
      cases bs with
      | nil => cases h
      | cons b bs =>
          simp only [readGroups] at h
          split at h
          · rename_i hlast
            cases h
            exact hlast
          · split at h
            · cases h
            · rename_i hrest
              cases h
              have hrest := ih hrest
              have hb := b.toNat_lt
              rw [Nat.pow_succ]
              omega

/-- A number below `128 ^ size` is written in no more than `size` groups. -/
theorem length_groups_le {fuel n size : Nat} (hsize : 0 < size) (h : n < 128 ^ size) :
    (groups fuel n).length ≤ size := by
  induction fuel generalizing n size with
  | zero => exact Nat.zero_le _
  | succ fuel ih =>
      rw [groups]
      by_cases hlast : n < 128
      · rw [if_pos hlast]
        exact hsize
      · obtain ⟨size, rfl⟩ : ∃ k, size = k + 1 := ⟨size - 1, by omega⟩
        have hrest : n / 128 < 128 ^ size := by
          rw [Nat.div_lt_iff_lt_mul (by decide), ← Nat.pow_succ]
          exact h
        have hpos : 0 < size := by
          apply Nat.pos_of_ne_zero
          rintro rfl
          exact hlast (by simpa using h)
        rw [if_neg hlast, List.length_cons]
        exact Nat.succ_le_succ (ih hpos hrest)

/-- A number that is cut off is not read: every byte but the last announces another. -/
theorem readGroups_cut {fuel n : Nat} {cut rest : List UInt8} (hrest : rest ≠ [])
    (h : cut ++ rest = groups fuel n) (bound : Nat) : readGroups bound cut = none := by
  induction fuel generalizing n cut bound with
  | zero => exact absurd (List.append_eq_nil_iff.mp h).2 hrest
  | succ fuel ih =>
      cases bound with
      | zero => rfl
      | succ bound =>
          cases cut with
          | nil => rfl
          | cons b cut =>
              rw [groups] at h
              by_cases hlast : n < 128
              · rw [if_pos hlast] at h
                obtain ⟨-, hnil⟩ := List.cons.inj h
                exact absurd (List.append_eq_nil_iff.mp hnil).2 hrest
              · rw [if_neg hlast] at h
                obtain ⟨rfl, htail⟩ := List.cons.inj h
                have hbyte : ¬ (UInt8.ofNat (n % 128 + 128)).toNat < 128 := by
                  rw [UInt8.toNat_ofNat']
                  omega
                simp only [readGroups, if_neg hbyte, ih htail bound]

/-- No varint of the number is shorter than the one that is written. -/
theorem length_varint_le {bs : List UInt8} {v : UInt64} {size : Nat}
    (h : readVarint bs = some (v, size)) : (varint v).length ≤ size := by
  obtain ⟨⟨n, size'⟩, hgroups, heq⟩ := Option.map_eq_some_iff.mp h
  cases heq
  have hlt : (UInt64.ofNat n).toNat < 128 ^ size := by
    rw [UInt64.toNat_ofNat']
    exact Nat.lt_of_le_of_lt (Nat.mod_le _ _) (readGroups_lt hgroups)
  exact length_groups_le (readGroups_size hgroups).1 hlt

/-- A varint that is cut off is not read. -/
theorem readVarint_cut {v : UInt64} {cut : List UInt8} (h : cut <+: varint v)
    (hcut : cut ≠ varint v) : readVarint cut = none := by
  obtain ⟨rest, hrest⟩ := h
  have hne : rest ≠ [] := by
    rintro rfl
    exact hcut (by rw [← hrest, List.append_nil])
  rw [readVarint, readGroups_cut hne hrest]
  rfl

/-! ## Values and fields -/

/-- The last `width` base-256 digits of `n`, least significant first. -/
def leBytes : Nat → Nat → List UInt8
  | 0, _ => []
  | width + 1, n => UInt8.ofNat (n % 256) :: leBytes width (n / 256)

def leNat : List UInt8 → Nat
  | [] => 0
  | b :: bs => b.toNat + 256 * leNat bs

@[simp] theorem length_leBytes (width n : Nat) : (leBytes width n).length = width := by
  induction width generalizing n with
  | zero => rfl
  | succ width ih => simp only [leBytes, List.length_cons, ih]

theorem leNat_leBytes {width n : Nat} (h : n < 256 ^ width) : leNat (leBytes width n) = n := by
  induction width generalizing n with
  | zero =>
      have hzero : n = 0 := by simpa using h
      rw [hzero]
      rfl
  | succ width ih =>
      have hdigit : (UInt8.ofNat (n % 256)).toNat = n % 256 := by
        rw [UInt8.toNat_ofNat']
        omega
      have hrest : n / 256 < 256 ^ width := by
        rw [Nat.div_lt_iff_lt_mul (by decide), ← Nat.pow_succ]
        exact h
      simp only [leBytes, leNat, hdigit, ih hrest]
      omega

/-- What a field holds, by wire type. -/
inductive Value where
  | varint (v : UInt64)
  | i64 (v : UInt64)
  | len (data : List UInt8)
  | i32 (v : UInt32)
  deriving DecidableEq, Repr

namespace Value

def wireType : Value → Nat
  | varint _ => 0
  | i64 _ => 1
  | len _ => 2
  | i32 _ => 5

def encode : Value → List UInt8
  | varint v => Protobuf.varint v
  | i64 v => leBytes 8 v.toNat
  | len data => Protobuf.varint (UInt64.ofNat data.length) ++ data
  | i32 v => leBytes 4 v.toNat

/-- The length of the data can be written. -/
def Fits : Value → Prop
  | len data => data.length < 2 ^ 64
  | _ => True

theorem wireType_lt (value : Value) : value.wireType < 8 := by
  cases value <;> exact Nat.lt_of_sub_eq_succ rfl

end Value

/-- The numbers that fields may have. -/
def IsNumber (n : Nat) : Prop := 0 < n ∧ n < 2 ^ 29

instance (n : Nat) : Decidable (IsNumber n) := inferInstanceAs (Decidable (_ ∧ _))

theorem isNumber_one : IsNumber 1 := by decide
theorem isNumber_two : IsNumber 2 := by decide
theorem isNumber_three : IsNumber 3 := by decide
theorem isNumber_four : IsNumber 4 := by decide
theorem isNumber_sixteen : IsNumber 16 := by decide

/-- A field of a message. -/
structure Field where
  number : Nat
  value : Value
  isNumber : IsNumber number
  deriving DecidableEq, Repr

namespace Field

variable (f : Field)

theorem bounded : f.number < 2 ^ 29 := f.isNumber.2

def tag : UInt64 := UInt64.ofNat (8 * f.number + f.value.wireType)

def encode : List UInt8 := varint f.tag ++ f.value.encode

theorem toNat_tag : f.tag.toNat = 8 * f.number + f.value.wireType := by
  have hnumber := f.bounded
  have hwire := f.value.wireType_lt
  rw [tag, UInt64.toNat_ofNat']
  omega

theorem length_encode_pos : 0 < f.encode.length := by
  rw [encode, List.length_append]
  exact Nat.add_pos_left (length_varint_pos _) _

end Field

/-- Fields one after the other. -/
def encode (fields : List Field) : List UInt8 := fields.flatMap Field.encode

@[simp] theorem encode_nil : encode [] = [] := rfl

@[simp] theorem encode_cons (f : Field) (fields : List Field) :
    encode (f :: fields) = f.encode ++ encode fields := rfl

theorem encode_append (fields more : List Field) :
    encode (fields ++ more) = encode fields ++ encode more := List.flatMap_append

/-! ## Parsing -/

/-- A value of the wire type and its size. -/
def readValue (wireType : Nat) (bs : List UInt8) : Option (Value × Nat) :=
  match wireType with
  | 0 => (readVarint bs).map fun (v, size) => (.varint v, size)
  | 1 => if bs.length < 8 then none else some (.i64 (UInt64.ofNat (leNat (bs.take 8))), 8)
  | 2 =>
    match readVarint bs with
    | none => none
    | some (length, size) =>
      if bs.length < size + length.toNat then none
      else some (.len ((bs.drop size).take length.toNat), size + length.toNat)
  | 5 => if bs.length < 4 then none else some (.i32 (UInt32.ofNat (leNat (bs.take 4))), 4)
  | _ => none

/-- A field and its size. -/
def readField (bs : List UInt8) : Option (Field × Nat) :=
  match readVarint bs with
  | none => none
  | some (tag, size) =>
    if h : IsNumber (tag.toNat / 8) then
      (readValue (tag.toNat % 8) (bs.drop size)).map fun (value, more) =>
        (⟨tag.toNat / 8, value, h⟩, size + more)
    else none

def parseFuel : Nat → List UInt8 → Option (List Field)
  | _, [] => some []
  | 0, _ :: _ => none
  | fuel + 1, b :: bs =>
    match readField (b :: bs) with
    | none => none
    | some (f, size) => (parseFuel fuel ((b :: bs).drop size)).map (f :: ·)

/-- The fields of a message, or `none` if it is malformed. Every field has at least
one byte, so the length of the message bounds their number. -/
def parse (bs : List UInt8) : Option (List Field) := parseFuel bs.length bs

/-- What a value that is read looks like. -/
theorem readValue_cases {wireType : Nat} {bs : List UInt8} {value : Value} {size : Nat}
    (h : readValue wireType bs = some (value, size)) :
    (wireType = 0 ∧ ∃ v, value = .varint v ∧ readVarint bs = some (v, size)) ∨
    (wireType = 1 ∧ (∃ v, value = .i64 v) ∧ size = 8 ∧ 8 ≤ bs.length) ∨
    (wireType = 2 ∧ ∃ length n, readVarint bs = some (length, n) ∧
      value = .len ((bs.drop n).take length.toNat) ∧ size = n + length.toNat ∧
      n + length.toNat ≤ bs.length) ∨
    (wireType = 5 ∧ (∃ v, value = .i32 v) ∧ size = 4 ∧ 4 ≤ bs.length) := by
  unfold readValue at h
  split at h
  · obtain ⟨⟨v, n⟩, hread, heq⟩ := Option.map_eq_some_iff.mp h
    cases heq
    exact .inl ⟨rfl, v, rfl, hread⟩
  · split at h
    · cases h
    · rename_i hlen
      cases h
      exact .inr (.inl ⟨rfl, ⟨_, rfl⟩, rfl, Nat.le_of_not_lt hlen⟩)
  · split at h
    · cases h
    · rename_i length n hread
      split at h
      · cases h
      · rename_i hlen
        cases h
        exact .inr (.inr (.inl ⟨rfl, length, n, hread, rfl, rfl, Nat.le_of_not_lt hlen⟩))
  · split at h
    · cases h
    · rename_i hlen
      cases h
      exact .inr (.inr (.inr ⟨rfl, ⟨_, rfl⟩, rfl, Nat.le_of_not_lt hlen⟩))
  · cases h

theorem readValue_size {wireType : Nat} {bs : List UInt8} {value : Value} {size : Nat}
    (h : readValue wireType bs = some (value, size)) : size ≤ bs.length := by
  obtain ⟨-, v, -, hread⟩ | ⟨-, -, rfl, hlen⟩ | ⟨-, length, n, -, -, rfl, hlen⟩ |
    ⟨-, -, rfl, hlen⟩ := readValue_cases h
  · exact (readVarint_size hread).2.1
  · exact hlen
  · exact hlen
  · exact hlen

/-- What a field that is read looks like. -/
theorem readField_cases {bs : List UInt8} {f : Field} {size : Nat}
    (h : readField bs = some (f, size)) :
    ∃ tag n m, readVarint bs = some (tag, n) ∧ tag.toNat / 8 = f.number ∧
      readValue (tag.toNat % 8) (bs.drop n) = some (f.value, m) ∧ size = n + m := by
  unfold readField at h
  split at h
  · cases h
  · rename_i tag n hread
    split at h
    · obtain ⟨⟨value, m⟩, hvalue, heq⟩ := Option.map_eq_some_iff.mp h
      cases heq
      exact ⟨tag, n, m, hread, rfl, hvalue, rfl⟩
    · cases h

/-- A field takes at least one byte of the buffer. -/
theorem readField_size {bs : List UInt8} {f : Field} {size : Nat}
    (h : readField bs = some (f, size)) : 0 < size ∧ size ≤ bs.length := by
  obtain ⟨tag, n, m, hread, -, hvalue, rfl⟩ := readField_cases h
  obtain ⟨hpos, hle, -⟩ := readVarint_size hread
  have hvalue := readValue_size hvalue
  rw [List.length_drop] at hvalue
  omega

theorem readValue_encode (value : Value) (after : List UInt8) (hfits : value.Fits) :
    readValue value.wireType (value.encode ++ after) = some (value, value.encode.length) := by
  cases value with
  | varint v =>
      simp only [Value.wireType, Value.encode, readValue, readVarint_varint, Option.map_some]
  | i64 v =>
      have hlen : ¬ (leBytes 8 v.toNat ++ after).length < 8 := by
        rw [List.length_append, length_leBytes]
        omega
      have hvalue : leNat (leBytes 8 v.toNat) = v.toNat :=
        leNat_leBytes (Nat.lt_of_lt_of_le v.toNat_lt (by decide))
      simp only [Value.wireType, Value.encode, readValue, if_neg hlen,
        List.take_left' (length_leBytes 8 _), hvalue, UInt64.ofNat_toNat, length_leBytes]
  | len data =>
      have hlength : (UInt64.ofNat data.length).toNat = data.length := by
        rw [UInt64.toNat_ofNat']
        exact Nat.mod_eq_of_lt hfits
      have harrived : ¬ (varint (UInt64.ofNat data.length) ++ (data ++ after)).length <
          (varint (UInt64.ofNat data.length)).length + data.length := by
        simp only [List.length_append]
        omega
      simp only [Value.wireType, Value.encode, List.append_assoc, readValue, readVarint_varint,
        hlength]
      rw [if_neg harrived, List.drop_left, List.take_left, List.length_append]
  | i32 v =>
      have hlen : ¬ (leBytes 4 v.toNat ++ after).length < 4 := by
        rw [List.length_append, length_leBytes]
        omega
      have hvalue : leNat (leBytes 4 v.toNat) = v.toNat :=
        leNat_leBytes (Nat.lt_of_lt_of_le v.toNat_lt (by decide))
      simp only [Value.wireType, Value.encode, readValue, if_neg hlen,
        List.take_left' (length_leBytes 4 _), hvalue, UInt32.ofNat_toNat, length_leBytes]

theorem parseFuel_zero {bs : List UInt8} {fields : List Field}
    (h : parseFuel 0 bs = some fields) : bs = [] ∧ fields = [] := by
  cases bs with
  | nil =>
      cases h
      exact ⟨rfl, rfl⟩
  | cons b bs => cases h

theorem parseFuel_cons {fuel : Nat} {bs : List UInt8} {fields : List Field} (hne : bs ≠ [])
    (h : parseFuel (fuel + 1) bs = some fields) :
    ∃ f size rest, readField bs = some (f, size) ∧ fields = f :: rest ∧
      parseFuel fuel (bs.drop size) = some rest := by
  obtain ⟨b, bs, rfl⟩ := List.exists_cons_of_ne_nil hne
  simp only [parseFuel] at h
  split at h
  · cases h
  · rename_i f size hread
    obtain ⟨rest, hrest, rfl⟩ := Option.map_eq_some_iff.mp h
    exact ⟨f, size, rest, hread, rfl, hrest⟩

theorem parseFuel_induct {bs : List UInt8} {motive : Nat → List Field → Prop}
    (hend : ∀ i, bs.length ≤ i → motive i [])
    (hfield : ∀ i f size rest, i < bs.length → readField (bs.drop i) = some (f, size) →
      i < i + size → i + size ≤ bs.length → motive (i + size) rest → motive i (f :: rest))
    {bound i : Nat} {fields : List Field} (h : parseFuel bound (bs.drop i) = some fields) :
    motive i fields := by
  induction bound generalizing i fields with
  | zero =>
      obtain ⟨hnil, rfl⟩ := parseFuel_zero h
      exact hend i (List.drop_eq_nil_iff.mp hnil)
  | succ bound ih =>
      by_cases hnil : bs.drop i = []
      · rw [hnil] at h
        cases h
        exact hend i (List.drop_eq_nil_iff.mp hnil)
      · obtain ⟨f, size, rest, hread, rfl, hrest⟩ := parseFuel_cons hnil h
        obtain ⟨hpos, hsize⟩ := readField_size hread
        have hlt : i < bs.length := Nat.lt_of_not_le (mt List.drop_eq_nil_iff.mpr hnil)
        rw [List.length_drop] at hsize
        rw [List.drop_drop] at hrest
        exact hfield i f size rest hlt hread (by omega) (by omega) (ih hrest)

/-- The rule for a loop over a message that parses: it stops at the end of the buffer,
and moves from field to field until then. -/
theorem parse_induct {bs : List UInt8} {motive : Nat → List Field → Prop} {fields : List Field}
    (h : parse bs = some fields) (hend : ∀ i, bs.length ≤ i → motive i [])
    (hfield : ∀ i f size rest, i < bs.length → readField (bs.drop i) = some (f, size) →
      i < i + size → i + size ≤ bs.length → motive (i + size) rest → motive i (f :: rest)) :
    motive 0 fields := parseFuel_induct hend hfield h

theorem readField_encode (f : Field) (after : List UInt8) (hfits : f.value.Fits) :
    readField (f.encode ++ after) = some (f, f.encode.length) := by
  have hwire := f.value.wireType_lt
  have hnumber : f.tag.toNat / 8 = f.number := by
    rw [f.toNat_tag]
    omega
  have hlow : f.tag.toNat % 8 = f.value.wireType := by
    rw [f.toNat_tag]
    omega
  have hvalue := readValue_encode f.value after hfits
  simp only [readField, Field.encode, List.append_assoc, readVarint_varint, List.drop_left, hlow,
    hvalue, Option.map_some, hnumber, dif_pos f.isNumber, List.length_append]

theorem parseFuel_encode {fields : List Field} (hfits : ∀ f ∈ fields, f.value.Fits)
    {fuel : Nat} (hfuel : (encode fields).length ≤ fuel) :
    parseFuel fuel (encode fields) = some fields := by
  induction fields generalizing fuel with
  | nil => cases fuel <;> rfl
  | cons f fields ih =>
      have hpos := f.length_encode_pos
      obtain ⟨hf, hrest⟩ := List.forall_mem_cons.mp hfits
      rw [encode_cons, List.length_append] at hfuel
      obtain ⟨fuel, rfl⟩ : ∃ k, fuel = k + 1 := ⟨fuel - 1, by omega⟩
      have hread := readField_encode f (encode fields) hf
      obtain ⟨b, bs, hcons⟩ : ∃ b bs, f.encode ++ encode fields = b :: bs :=
        List.exists_cons_of_length_pos (by rw [List.length_append]; omega)
      rw [encode_cons, hcons, parseFuel, ← hcons, hread]
      simp only [List.drop_left]
      rw [ih hrest (by omega)]
      rfl

/-- Every message that is written is read back. -/
theorem parse_encode {fields : List Field} (hfits : ∀ f ∈ fields, f.value.Fits) :
    parse (encode fields) = some fields := parseFuel_encode hfits (Nat.le_refl _)

/-- The data of a field is part of the message. -/
theorem length_data_le {fields : List Field} {f : Field} {data : List UInt8} (hf : f ∈ fields)
    (hvalue : f.value = .len data) : data.length ≤ (encode fields).length := by
  induction fields with
  | nil => cases hf
  | cons g fields ih =>
      rw [encode_cons, List.length_append]
      obtain rfl | hf := List.mem_cons.mp hf
      · rw [Field.encode, hvalue, Value.encode, List.length_append, List.length_append]
        omega
      · exact Nat.le_trans (ih hf) (Nat.le_add_left _ _)

/-- A message with a 64-bit size has only such fields. -/
theorem fits_of_length {fields : List Field} (h : (encode fields).length < 2 ^ 64) :
    ∀ f ∈ fields, f.value.Fits := by
  intro f hf
  cases hvalue : f.value with
  | len data => exact Nat.lt_of_le_of_lt (length_data_le hf hvalue) h
  | varint v => exact trivial
  | i64 v => exact trivial
  | i32 v => exact trivial

/-! ## Reading a message by field number -/

/-- The values of a field of bytes, strings or messages, in order. -/
def lens (number : Nat) (fields : List Field) : List (List UInt8) :=
  fields.filterMap fun f =>
    match f.value with
    | .len data => if f.number = number then some data else none
    | _ => none

/-- The values of a field of numbers. -/
def varints (number : Nat) (fields : List Field) : List UInt64 :=
  fields.filterMap fun f =>
    match f.value with
    | .varint v => if f.number = number then some v else none
    | _ => none

section Cons

variable (number n : Nat) (fields : List Field) (h : IsNumber n)

theorem lens_cons_len (data : List UInt8) :
    lens number (⟨n, .len data, h⟩ :: fields) =
      if n = number then data :: lens number fields else lens number fields := by
  simp only [lens, List.filterMap_cons]
  by_cases hn : n = number
  · simp only [if_pos hn]
  · simp only [if_neg hn]

theorem varints_cons_varint (v : UInt64) :
    varints number (⟨n, .varint v, h⟩ :: fields) =
      if n = number then v :: varints number fields else varints number fields := by
  simp only [varints, List.filterMap_cons]
  by_cases hn : n = number
  · simp only [if_pos hn]
  · simp only [if_neg hn]

theorem lens_cons_varint (v : UInt64) :
    lens number (⟨n, .varint v, h⟩ :: fields) = lens number fields := rfl

theorem varints_cons_len (data : List UInt8) :
    varints number (⟨n, .len data, h⟩ :: fields) = varints number fields := rfl

/-- A field of another number, or without a length. -/
theorem lens_cons_skip {f : Field} (hskip : f.number ≠ number ∨ f.value.wireType ≠ 2) :
    lens number (f :: fields) = lens number fields := by
  obtain ⟨n, value, h⟩ := f
  cases value with
  | len data =>
      have hother : n ≠ number := by
        obtain hskip | hskip := hskip
        · exact hskip
        · exact absurd rfl hskip
      rw [lens_cons_len, if_neg hother]
  | varint v => rfl
  | i64 v => rfl
  | i32 v => rfl

end Cons

theorem lens_append (number : Nat) (fields more : List Field) :
    lens number (fields ++ more) = lens number fields ++ lens number more := List.filterMap_append

/-- A singular field of bytes: the last value wins, and the default is empty. -/
def bytesField (number : Nat) (fields : List Field) : List UInt8 := (lens number fields).getLastD []

/-- A singular field of numbers: the last value wins, and the default is zero. -/
def numberField (number : Nat) (fields : List Field) : UInt64 := (varints number fields).getLastD 0

end Protobuf
