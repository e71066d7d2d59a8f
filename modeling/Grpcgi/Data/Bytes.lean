import Mathlib.Data.List.Basic
import Mathlib.Data.List.GetD
import Mathlib.Tactic.IntervalCases
import Mathlib.Tactic.Ring

/-!
# Byte strings

Buffers of every component are lists of bytes. This file has the two codings
they share: unsigned integers in network byte order, and the four-byte XOR mask
of RFC 6455.
-/

namespace Grpcgi

abbrev Bytes := List UInt8

/-- A stretch that lies inside the left part is read from it. -/
theorem drop_take_append {α : Type*} {xs : List α} (ys : List α) {i n : Nat}
    (h : i + n ≤ xs.length) : ((xs ++ ys).drop i).take n = (xs.drop i).take n := by
  rw [List.drop_append_of_le_length (by omega),
    List.take_append_of_le_length (by rw [List.length_drop]; omega)]

/-- The unsigned integer written in network byte order. -/
def beNat (bs : Bytes) : Nat := bs.foldl (fun acc b => acc * 256 + b.toNat) 0

/-- The last `width` base-256 digits of `n`, most significant first. -/
def beBytes : Nat → Nat → Bytes
  | 0, _ => []
  | width + 1, n => UInt8.ofNat (n / 256 ^ width) :: beBytes width n

@[simp] theorem length_beBytes (width n : Nat) : (beBytes width n).length = width := by
  induction width with
  | zero => rfl
  | succ width ih => simp only [beBytes, List.length_cons, ih]

theorem foldl_be (bs : Bytes) (acc : Nat) :
    bs.foldl (fun acc b => acc * 256 + b.toNat) acc = acc * 256 ^ bs.length + beNat bs := by
  induction bs generalizing acc with
  | nil => simp [beNat]
  | cons b bs ih =>
      have hb := ih b.toNat
      simp only [beNat, List.foldl_cons, List.length_cons, Nat.zero_mul, Nat.zero_add] at hb ⊢
      rw [ih, hb, beNat]
      ring

theorem beNat_cons (b : UInt8) (bs : Bytes) :
    beNat (b :: bs) = b.toNat * 256 ^ bs.length + beNat bs := by
  simpa [beNat] using foldl_be bs b.toNat

theorem beNat_beBytes (width n : Nat) : beNat (beBytes width n) = n % 256 ^ width := by
  induction width with
  | zero => simp [beBytes, beNat, Nat.mod_one]
  | succ width ih =>
      have hdigit : (UInt8.ofNat (n / 256 ^ width)).toNat = n / 256 ^ width % 256 :=
        UInt8.toNat_ofNat'
      rw [beBytes, beNat_cons, ih, length_beBytes, hdigit, Nat.pow_succ, Nat.mod_mul]
      ring

theorem beNat_lt (bs : Bytes) : beNat bs < 256 ^ bs.length := by
  induction bs with
  | nil => exact Nat.one_pos
  | cons b bs ih =>
      have hdigit : (b.toNat + 1) * 256 ^ bs.length ≤ 256 * 256 ^ bs.length :=
        Nat.mul_le_mul_right _ b.toNat_lt
      have hsplit : (b.toNat + 1) * 256 ^ bs.length =
          b.toNat * 256 ^ bs.length + 256 ^ bs.length := by ring
      rw [beNat_cons, List.length_cons, Nat.pow_succ, Nat.mul_comm _ 256]
      omega

/-- The low digits of a number are the bytes they were read from, whatever stands
above them. -/
theorem beBytes_beNat (bs : Bytes) (n : Nat) :
    beBytes bs.length (n * 256 ^ bs.length + beNat bs) = bs := by
  induction bs generalizing n with
  | nil => rfl
  | cons b bs ih =>
      have hsplit : n * 256 ^ (bs.length + 1) + beNat (b :: bs) =
          (n * 256 + b.toNat) * 256 ^ bs.length + beNat bs := by
        rw [beNat_cons]
        ring
      have hdigit : ((n * 256 + b.toNat) * 256 ^ bs.length + beNat bs) / 256 ^ bs.length =
          n * 256 + b.toNat := by
        rw [Nat.add_comm, Nat.add_mul_div_right _ _ (Nat.pow_pos (by decide)),
          Nat.div_eq_of_lt (beNat_lt bs), Nat.zero_add]
      have hbyte : UInt8.ofNat (n * 256 + b.toNat) = b := by
        apply UInt8.toNat_inj.mp
        have hlt := b.toNat_lt
        rw [UInt8.toNat_ofNat']
        omega
      rw [List.length_cons, hsplit, beBytes, hdigit, hbyte, ih]

/-- XOR with a four-byte key that repeats. -/
def maskWith (key bs : Bytes) : Bytes := bs.mapIdx fun i b => b ^^^ key.getD (i % 4) 0

@[simp] theorem length_maskWith (key bs : Bytes) : (maskWith key bs).length = bs.length :=
  List.length_mapIdx

/-- Masking and unmasking are the same operation. -/
theorem maskWith_maskWith (key bs : Bytes) : maskWith key (maskWith key bs) = bs := by
  have hcancel (b k : UInt8) : b ^^^ k ^^^ k = b := by
    rw [UInt8.xor_assoc, UInt8.xor_self, UInt8.xor_zero]
  apply List.ext_getElem (by simp)
  intro i hi hi'
  simp only [maskWith, List.getElem_mapIdx, hcancel]

theorem maskWith_zero (bs : Bytes) : maskWith [0, 0, 0, 0] bs = bs := by
  have hzero (i : Nat) : ([0, 0, 0, 0] : Bytes).getD (i % 4) 0 = 0 := by
    have hi : i % 4 < 4 := Nat.mod_lt _ (by decide)
    interval_cases i % 4 <;> rfl
  apply List.ext_getElem (by simp)
  intro i hi hi'
  simp only [maskWith, List.getElem_mapIdx, hzero, UInt8.xor_zero]

theorem and_127 (b : UInt8) : (b &&& 0x7F).toNat = b.toNat % 128 := by
  rw [UInt8.toNat_and]
  exact Nat.and_two_pow_sub_one_eq_mod _ 7

theorem and_127_lt (b : UInt8) : (b &&& 0x7F).toNat < 128 := by
  rw [and_127]
  exact Nat.mod_lt _ (Nat.two_pow_pos 7)

theorem and_15 (b : UInt8) : (b &&& 0x0F).toNat = b.toNat % 16 := by
  rw [UInt8.toNat_and]
  exact Nat.and_two_pow_sub_one_eq_mod _ 4

/-- The top bit of a byte, as both parsers test it. -/
theorem and_128_ne_zero (b : UInt8) : (b &&& 0x80 ≠ 0) ↔ 128 ≤ b.toNat := by
  have hall : ∀ i : Fin 256, (UInt8.ofNat i.val &&& 0x80 ≠ 0) ↔ 128 ≤ i.val := by
    decide +kernel
  simpa using hall ⟨b.toNat, b.toNat_lt⟩

end Grpcgi
