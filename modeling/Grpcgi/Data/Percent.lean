import Grpcgi.Data.Text

/-!
# Percent-encoding

The bytes that a part of a URI stands for: an escape is one byte, and every other
character stands for itself.
-/

namespace Grpcgi

/-- The value of a hexadecimal digit. -/
def hexValue (c : Char) : Option Nat :=
  if c.isDigit then some (c.toNat - '0'.toNat)
  else if 0x61 ≤ c.val && c.val ≤ 0x66 then some (c.toNat - 'a'.toNat + 10)
  else if 0x41 ≤ c.val && c.val ≤ 0x46 then some (c.toNat - 'A'.toNat + 10)
  else none

/-- A percent sign without two digits after it stands for itself. -/
def percentDecode : Str → Bytes
  | '%' :: hi :: lo :: s =>
    match hexValue hi, hexValue lo with
    | some high, some low => UInt8.ofNat (16 * high + low) :: percentDecode s
    | _, _ => String.utf8EncodeChar '%' ++ percentDecode (hi :: lo :: s)
  | c :: s => String.utf8EncodeChar c ++ percentDecode s
  | [] => []

/-- Some percent sign has two digits after it. -/
def hasEscape : Str → Bool
  | '%' :: hi :: lo :: s =>
    (hexValue hi).isSome && (hexValue lo).isSome || hasEscape (hi :: lo :: s)
  | _ :: s => hasEscape s
  | [] => false

/-- The characters that the bytes are in UTF-8. -/
def percentDecodeText (s : Str) : Option Str := utf8Decode (percentDecode s)

example : percentDecodeText "/caf%C3%A9%2Fx%".toList = some "/café/x%".toList := by decide

theorem utf8Encode_cons (c : Char) (s : Str) :
    utf8Encode (c :: s) = String.utf8EncodeChar c ++ utf8Encode s := rfl

theorem length_utf8Encode_cons (c : Char) (s : Str) :
    (utf8Encode (c :: s)).length = c.utf8Size + (utf8Encode s).length := by
  rw [utf8Encode_cons, List.length_append, String.length_utf8EncodeChar]

/-- Without an escape the bytes are those of the text. -/
theorem percentDecode_plain {s : Str} (h : hasEscape s = false) :
    percentDecode s = utf8Encode s := by
  fun_induction percentDecode s with
  | case1 hi lo s high low hlow hhigh ih => simp [hasEscape, hhigh, hlow] at h
  | case2 hi lo s hnone ih =>
      simp only [hasEscape, Bool.or_eq_false_iff] at h
      rw [utf8Encode_cons, ih h.2]
  | case3 c s hother ih =>
      rw [hasEscape] at h
      · rw [utf8Encode_cons, ih h]
      · exact hother
  | case4 => rfl

/-- An escape takes three characters for its byte. -/
theorem length_percentDecode (s : Str) :
    (percentDecode s).length ≤ (utf8Encode s).length ∧
      (hasEscape s → (percentDecode s).length < (utf8Encode s).length) := by
  fun_induction percentDecode s with
  | case1 hi lo s high low hlow hhigh ih =>
      have hhi := hi.utf8Size_pos
      have hlo := lo.utf8Size_pos
      simp only [length_utf8Encode_cons, List.length_cons]
      refine ⟨by omega, fun _ => by omega⟩
  | case2 hi lo s hnone ih =>
      have hneither : ((hexValue hi).isSome && (hexValue lo).isSome) = false := by
        cases hhigh : hexValue hi with
        | none => rfl
        | some high =>
            cases hlow : hexValue lo with
            | none => rfl
            | some low => exact absurd hlow (hnone high low hhigh)
      simp only [hasEscape, hneither, Bool.false_or, List.length_append,
        String.length_utf8EncodeChar, length_utf8Encode_cons '%']
      refine ⟨by omega, fun hrest => ?_⟩
      have hlt := ih.2 hrest
      omega
  | case3 c s hother ih =>
      rw [hasEscape]
      · rw [List.length_append, String.length_utf8EncodeChar, length_utf8Encode_cons]
        refine ⟨by omega, fun hrest => ?_⟩
        have hlt := ih.2 hrest
        omega
      · exact hother
  | case4 => exact ⟨Nat.le_refl _, fun h => absurd h Bool.false_ne_true⟩

/-- A text stands for itself exactly when it has no escape. -/
theorem percentDecodeText_self_iff (s : Str) :
    percentDecodeText s = some s ↔ hasEscape s = false := by
  constructor
  · intro h
    have hbytes := utf8Encode_utf8Decode h
    cases hescape : hasEscape s with
    | false => rfl
    | true =>
        have hlt := (length_percentDecode s).2 hescape
        rw [hbytes] at hlt
        exact absurd hlt (Nat.lt_irrefl _)
  · intro h
    rw [percentDecodeText, percentDecode_plain h, utf8Decode_utf8Encode]

end Grpcgi
