import Grpcgi.Data.Bytes
import Mathlib.Data.List.Basic

/-!
# Text

Strings of all three languages are lists of Unicode scalar values. This file
has the string operations that the Rust filter and the Python bridge take from
their standard libraries, each with the behaviour its documentation states.

Three operations consult the Unicode character database: full lower-casing and
upper-casing, and the decimal value of a digit. The database is a parameter,
`Unicode`, whose fields fix what it says about ASCII.
-/

namespace Grpcgi

abbrev Str := List Char

/-- `str.encode()` and `as_bytes()`. -/
def utf8Encode (s : Str) : Bytes := s.flatMap String.utf8EncodeChar

/-- Strict UTF-8 decoding, as `str::from_utf8` and `bytes.decode()`. -/
def utf8Decode (bs : Bytes) : Option Str :=
  (ByteArray.utf8Decode? ⟨bs.toArray⟩).map Array.toList

theorem utf8Encode_toByteArray (s : Str) :
    (⟨(utf8Encode s).toArray⟩ : ByteArray) = s.utf8Encode := by
  apply ByteArray.ext
  simp [utf8Encode, List.utf8Encode]

@[simp] theorem utf8Decode_utf8Encode (s : Str) : utf8Decode (utf8Encode s) = some s := by
  rw [utf8Decode, utf8Encode_toByteArray, List.utf8Decode?_utf8Encode]
  simp

theorem utf8Encode_injective {s t : Str} (h : utf8Encode s = utf8Encode t) : s = t := by
  have hdecode := congrArg utf8Decode h
  rw [utf8Decode_utf8Encode, utf8Decode_utf8Encode] at hdecode
  exact Option.some.inj hdecode

theorem utf8Encode_utf8Decode {bs : Bytes} {s : Str} (h : utf8Decode bs = some s) :
    utf8Encode s = bs := by
  obtain ⟨chars, hchars, rfl⟩ := Option.map_eq_some_iff.mp h
  have hsome : (ByteArray.utf8Decode? ⟨bs.toArray⟩).isSome := by rw [hchars]; rfl
  have hget : (ByteArray.utf8Decode? ⟨bs.toArray⟩).get hsome = chars := by simp [hchars]
  have hbytes : (⟨(utf8Encode chars.toList).toArray⟩ : ByteArray) = ⟨bs.toArray⟩ := by
    rw [utf8Encode_toByteArray, ← hget]
    exact ByteArray.utf8Encode_get_utf8Decode?
  simpa using hbytes

def IsAscii (s : Str) : Prop := ∀ c ∈ s, c.val < 128

instance (s : Str) : Decidable (IsAscii s) := List.decidableBAll _ s

/-- Lower-casing of the ASCII letters only, as `absl::AsciiStrToLower`. -/
def asciiLower (s : Str) : Str := s.map Char.toLower

/-- Upper-casing of the ASCII letters only. -/
def asciiUpper (s : Str) : Str := s.map Char.toUpper

/-- `absl::EqualsIgnoreCase` and `eq_ignore_ascii_case`. -/
def equalsIgnoreCase (s t : Str) : Bool := asciiLower s == asciiLower t

/-- The parts of the Unicode character database that the programs consult. -/
structure Unicode where
  lower : Str → Str
  lower_ascii : ∀ s, IsAscii s → lower s = asciiLower s
  upper : Str → Str
  upper_ascii : ∀ s, IsAscii s → upper s = asciiUpper s
  decimal : Char → Option Nat
  decimal_ascii : ∀ c : Char, c.val < 128 →
    decimal c = if c.isDigit then some (c.toNat - '0'.toNat) else none

/-- A database that knows ASCII only. -/
def Unicode.ascii : Unicode where
  lower := asciiLower
  lower_ascii _ _ := rfl
  upper := asciiUpper
  upper_ascii _ _ := rfl
  decimal c := if c.isDigit then some (c.toNat - '0'.toNat) else none
  decimal_ascii _ _ := rfl

/-- The `White_Space` property, which `str::trim` strips. -/
def isWhiteSpace (c : Char) : Bool :=
  (0x09 ≤ c.val && c.val ≤ 0x0D) || c.val == 0x20 || c.val == 0x85 || c.val == 0xA0 ||
  c.val == 0x1680 || (0x2000 ≤ c.val && c.val ≤ 0x200A) || c.val == 0x2028 || c.val == 0x2029 ||
  c.val == 0x202F || c.val == 0x205F || c.val == 0x3000

/-- `str.isspace()`: `White_Space` and the four ASCII separators. -/
def isPySpace (c : Char) : Bool := isWhiteSpace c || (0x1C ≤ c.val && c.val ≤ 0x1F)

/-- Drop a class of characters at both ends. -/
def trimBoth (p : Char → Bool) (s : Str) : Str :=
  ((s.dropWhile p).reverse.dropWhile p).reverse

/-- Cut at the first occurrence of a character, which is dropped. -/
def splitFirst (sep : Char) : Str → Option (Str × Str)
  | [] => none
  | c :: s =>
    if c = sep then some ([], s)
    else (splitFirst sep s).map fun (before, after) => (c :: before, after)

/-- Cut at the last occurrence of a character, which is dropped. -/
def splitLast (sep : Char) (s : Str) : Option (Str × Str) :=
  (splitFirst sep s.reverse).map fun (after, before) => (before.reverse, after.reverse)

/-- `split("\r\n")`. -/
def splitCrlf : Str → List Str
  | [] => [[]]
  | '\r' :: '\n' :: s => [] :: splitCrlf s
  | c :: s =>
    match splitCrlf s with
    | [] => [[c]]
    | line :: lines => (c :: line) :: lines

/-- `splitn(n, sep)`: at most `n` pieces, the last with the rest. -/
def splitn (sep : Char) : Nat → Str → List Str
  | 0, _ => []
  | 1, s => [s]
  | n + 2, s =>
    match splitFirst sep s with
    | none => [s]
    | some (before, after) => before :: splitn sep (n + 1) after

example : splitn ' ' 3 "GET /a b c".toList = ["GET".toList, "/a".toList, "b c".toList] := by decide

/-- The digits of a Python integer literal in base ten: single underscores may
stand between digits. -/
def pyDigits (u : Unicode) : Nat → Str → Option Nat
  | _, [] => none
  | acc, [c] => (u.decimal c).map (acc * 10 + ·)
  | acc, c :: '_' :: d :: s =>
    match u.decimal c with
    | none => none
    | some v => if d = '_' then none else pyDigits u (acc * 10 + v) (d :: s)
  | acc, c :: s =>
    match u.decimal c with
    | none => none
    | some v => pyDigits u (acc * 10 + v) s

/-- `sys.int_info.default_max_str_digits`: longer literals are refused. -/
def pyMaxStrDigits : Nat := 4300

def pyNatural (u : Unicode) (s : Str) : Option Nat :=
  if pyMaxStrDigits < (s.filter (· ≠ '_')).length then none else pyDigits u 0 s

/-- `int(s)`; `none` is a `ValueError`. Unlike `str.strip`, it does not take the four ASCII
separators for blanks. -/
def pyInt (u : Unicode) (s : Str) : Option Int :=
  match trimBoth isWhiteSpace s with
  | '-' :: t => (pyNatural u t).map fun n => -(n : Int)
  | '+' :: t => (pyNatural u t).map fun n => (n : Int)
  | t => (pyNatural u t).map fun n => (n : Int)

example : pyInt .ascii " 80_80 ".toList = some 8080 := by decide
example : pyInt .ascii "8__0".toList = none := by decide
example : pyInt .ascii ['8', Char.ofNat 0x1C] = none := by decide

/-! ## Cutting and trimming -/

/-- A text without the separator goes to the first piece. -/
theorem splitFirst_append_of_not_mem {sep : Char} {s : Str} (h : sep ∉ s) (t : Str) :
    splitFirst sep (s ++ t) = (splitFirst sep t).map (Prod.map (s ++ ·) id) := by
  induction s with
  | nil =>
      show _ = (splitFirst sep t).map id
      rw [Option.map_id]
      rfl
  | cons c s ih =>
      obtain ⟨hc, hs⟩ := not_or.mp (mt List.mem_cons.mpr h)
      rw [List.cons_append, splitFirst, if_neg (Ne.symm hc), ih hs, Option.map_map]
      rfl

theorem splitFirst_append {sep : Char} {s : Str} (h : sep ∉ s) (t : Str) :
    splitFirst sep (s ++ sep :: t) = some (s, t) := by
  rw [splitFirst_append_of_not_mem h, splitFirst, if_pos rfl, Option.map_some]
  simp only [Prod.map, List.append_nil, id]

theorem splitFirst_eq_none {sep : Char} {s : Str} (h : sep ∉ s) : splitFirst sep s = none := by
  have hsplit := splitFirst_append_of_not_mem h []
  rwa [List.append_nil] at hsplit

theorem trimBoth_eq_self {p : Char → Bool} {s : Str} (h : ∀ c ∈ s, p c = false) :
    trimBoth p s = s := by
  have hdrop {t : Str} (ht : ∀ c ∈ t, p c = false) : t.dropWhile p = t := by
    cases t with
    | nil => rfl
    | cons c t => exact List.dropWhile_cons_of_neg (by rw [ht c List.mem_cons_self]; decide)
  rw [trimBoth, hdrop h, hdrop fun c hc => h c (List.mem_reverse.mp hc), List.reverse_reverse]

/-- A separator and a blank between two pieces: the blank belongs to the second. -/
theorem intercalate_blank (sep : Char) (piece : Str) (pieces : List Str) :
    [sep, ' '].intercalate (piece :: pieces) =
      [sep].intercalate (piece :: pieces.map (' ' :: ·)) := by
  induction pieces generalizing piece with
  | nil => simp only [List.map_nil, List.intercalate_singleton]
  | cons next pieces ih =>
      rw [List.intercalate_cons_cons, ih, List.map_cons, List.intercalate_cons_cons]
      cases pieces <;>
        simp only [List.map_nil, List.map_cons, List.intercalate_singleton,
          List.intercalate_cons_cons, List.append_assoc, List.cons_append, List.nil_append]

/-- A comma list splits into its items, blanks stripped. -/
theorem split_commaList {items : List Str} (hne : items ≠ [])
    (hplain : ∀ item ∈ items, ∀ c ∈ item, c ≠ ',' ∧ isPySpace c = false) :
    ((", ".toList.intercalate items).splitOn ',').map (trimBoth isPySpace) = items := by
  cases items with
  | nil => exact absurd rfl hne
  | cons item items =>
      have hcomma : ∀ piece ∈ item :: items.map (' ' :: ·), ',' ∉ piece := by
        intro piece hpiece hmem
        obtain rfl | hpiece := List.mem_cons.mp hpiece
        · exact (hplain _ List.mem_cons_self _ hmem).1 rfl
        · obtain ⟨rest, hrest, rfl⟩ := List.mem_map.mp hpiece
          obtain hblank | hmem := List.mem_cons.mp hmem
          · exact absurd hblank (by decide)
          · exact (hplain _ (List.mem_cons_of_mem _ hrest) _ hmem).1 rfl
      have htrim : ∀ piece ∈ item :: items, trimBoth isPySpace piece = piece :=
        fun piece hpiece => trimBoth_eq_self fun c hc => (hplain piece hpiece c hc).2
      have hblank (piece : Str) : trimBoth isPySpace (' ' :: piece) = trimBoth isPySpace piece := by
        rw [trimBoth, List.dropWhile_cons_of_pos (by decide), trimBoth]
      change (([',', ' '].intercalate (item :: items)).splitOn ',').map _ = _
      rw [intercalate_blank, List.splitOn_intercalate ',' hcomma (List.cons_ne_nil _ _),
        List.map_cons, List.map_map, htrim _ List.mem_cons_self]
      congr 1
      refine List.map_congr_left (fun piece hpiece => ?_) |>.trans (List.map_id items)
      exact (hblank piece).trans (htrim _ (List.mem_cons_of_mem _ hpiece))

end Grpcgi
