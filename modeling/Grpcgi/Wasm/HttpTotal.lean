import Grpcgi.Wasm.FrameTotal
import Grpcgi.Wasm.HttpDecode

/-!
# `decode_http_response` on arbitrary bytes

Both loops of the HTTP filter slice the buffer by a length from the wire without
looking at what is left of it, and they skip unknown fields the same way. `Arms` is
what the two loops do differently, and `Arms.safe_iff` says for which buffers such a
loop neither traps nor wraps its position.
-/

namespace Grpcgi.Wasm.HttpBridge

open Cursor (Loop Outcome Walk)

/-! ## Loops over fields -/

/-- The loop of a decoder with the given iteration. -/
def fieldLoop {σ : Type} (size : Nat) (field : Nat → σ → Except Trap (Iteration σ)) :
    Loop Trap σ (Option σ) where
  size := size
  step pos state :=
    match field pos state with
    | .error e => .fail e
    | .ok .invalid => .stop none
    | .ok .done => .stop (some state)
    | .ok (.next pos state) => .next pos state
  finish state := some state
  endless := .diverges

/-- A function with the equations of such a loop is one. -/
theorem fieldLoop_run {σ : Type} {size : Nat} {field : Nat → σ → Except Trap (Iteration σ)}
    {loop : Nat → Nat → σ → Except Trap (Option σ)}
    (hzero : ∀ pos state, loop 0 pos state = .error .diverges)
    (hsucc : ∀ fuel pos state, loop (fuel + 1) pos state =
      if pos < size then
        match field pos state with
        | .error e => .error e
        | .ok .invalid => .ok none
        | .ok .done => .ok (some state)
        | .ok (.next pos state) => loop fuel pos state
      else .ok (some state)) (fuel pos : Nat) (state : σ) :
    loop fuel pos state = (fieldLoop size field).run fuel pos state := by
  induction fuel generalizing pos state with
  | zero => exact hzero pos state
  | succ fuel ih =>
      rw [hsucc, Loop.run]
      by_cases hpos : pos < size
      · rw [if_pos hpos, if_pos (show pos < (fieldLoop size field).size from hpos)]
        simp only [fieldLoop]
        cases field pos state with
        | error e => rfl
        | ok iteration =>
            cases iteration with
            | next pos state => exact ih pos state
            | done => rfl
            | invalid => rfl
      · rw [if_neg hpos, if_neg (show ¬ pos < (fieldLoop size field).size from hpos)]
        rfl

/-- What a loop does with the fields that have a length, and which other values it
moves past unread. -/
structure Arms where
  /-- the fields whose data is sliced off -/
  known : List Nat
  /-- the data can be taken -/
  handles : Nat → Bytes → Prop
  /-- the size of a value of fixed width, by wire type -/
  fixed : Nat → Option Nat
  fixed_le : ∀ wire size, fixed wire = some size → size ≤ 8

/-- What an iteration at `i` adds up to, before the sum is cut to a `usize`. Its other
sums are on the way there, and no larger. -/
def fieldSum (bits : Nat) (fixed : Nat → Option Nat) (raw : Bytes) (i : Nat) : Option Nat :=
  match Protobuf.readVarint (raw.drop i) with
  | none => none
  | some (tag, n) =>
    match tag.toNat % 8 with
    | 0 => (Protobuf.readVarint (raw.drop (i + n))).map fun (_, m) => i + n + m
    | 2 => (Protobuf.readVarint (raw.drop (i + n))).map fun (len, m) =>
        i + n + m + len.toNat % 2 ^ bits
    | wire => (fixed wire).map (i + n + ·)

/-- The position after the field at `i`. -/
def nextPos (bits : Nat) (fixed : Nat → Option Nat) (raw : Bytes) (i : Nat) : Option Nat :=
  (fieldSum bits fixed raw i).map (· % 2 ^ bits)

/-- The iteration at `i` does not wrap the position. -/
def NoWrap (bits : Nat) (fixed : Nat → Option Nat) (raw : Bytes) (i : Nat) : Prop :=
  ∀ sum, fieldSum bits fixed raw i = some sum → sum < 2 ^ bits

namespace Arms

variable (a : Arms) (bits : Nat) (raw : Bytes) (i : Nat)

/-- The data of a known field is inside the buffer, and can be taken. -/
def Reads : Prop :=
  ∀ number start len, lenField raw i = some (number, start, len) → number ∈ a.known →
    start + len % 2 ^ bits ≤ raw.length ∧
      a.handles number ((raw.drop start).take (len % 2 ^ bits))

/-- How an iteration at `i` ends. -/
def Moves {σ ρ : Type} : Outcome Trap σ ρ → Prop
  | .fail _ => ¬ a.Reads bits raw i
  | .stop _ => nextPos bits a.fixed raw i = none ∧ a.Reads bits raw i
  | .next j _ => nextPos bits a.fixed raw i = some j ∧ a.Reads bits raw i

variable {a bits raw i}

theorem reads_of_none (h : lenField raw i = none) : a.Reads bits raw i := by
  intro number start len hlen
  rw [h] at hlen
  cases hlen

/-- A field with a length adds the length to the start of its data. -/
theorem fieldSum_len {number start len : Nat} (h : lenField raw i = some (number, start, len)) :
    fieldSum bits a.fixed raw i = some (start + len % 2 ^ bits) := by
  obtain ⟨tag, n, length, m, htag, hwire, hlength, -, rfl, rfl⟩ := lenField_cases h
  simp only [fieldSum, htag, hwire, hlength, Option.map_some]

/-- A value of fixed width adds its size. -/
theorem fieldSum_fixed {tag : UInt64} {n : Nat}
    (htag : Protobuf.readVarint (raw.drop i) = some (tag, n)) (hzero : tag.toNat % 8 ≠ 0)
    (hwire : tag.toNat % 8 ≠ 2) :
    fieldSum bits a.fixed raw i = (a.fixed (tag.toNat % 8)).map (i + n + ·) := by
  simp only [fieldSum, htag]

/-- Any other field stays within the eight bytes after the buffer. -/
theorem fieldSum_other {sum : Nat} (hi : i < raw.length) (h : lenField raw i = none)
    (hsum : fieldSum bits a.fixed raw i = some sum) : i < sum ∧ sum ≤ raw.length + 8 := by
  unfold fieldSum at hsum
  split at hsum
  · cases hsum
  · rename_i tag n htag
    obtain ⟨hpos, hn, -⟩ := Protobuf.readVarint_size htag
    rw [List.length_drop] at hn
    split at hsum
    · obtain ⟨⟨v, m⟩, hread, heq⟩ := Option.map_eq_some_iff.mp hsum
      obtain ⟨-, hm, -⟩ := Protobuf.readVarint_size hread
      rw [List.length_drop] at hm
      have hend : i + n + m = sum := heq
      omega
    · rename_i hwire
      obtain ⟨⟨len, m⟩, hlen, -⟩ := Option.map_eq_some_iff.mp hsum
      simp only [lenField, htag, hwire, if_true, hlen] at h
      cases h
    · obtain ⟨size, hfixed, heq⟩ := Option.map_eq_some_iff.mp hsum
      have hle := a.fixed_le _ _ hfixed
      omega

/-- No iteration wraps but on a field with a length. -/
theorem noWrap_iff (hi : i < raw.length) (hsize : raw.length + 8 < 2 ^ bits) :
    NoWrap bits a.fixed raw i ↔ ∀ number start len,
      lenField raw i = some (number, start, len) → start + len % 2 ^ bits < 2 ^ bits := by
  constructor
  · intro hno number start len hlen
    exact hno _ (fieldSum_len hlen)
  · intro hlens sum hsum
    cases hlen : lenField raw i with
    | none =>
        obtain ⟨-, hle⟩ := fieldSum_other hi hlen hsum
        omega
    | some field =>
        rw [fieldSum_len hlen] at hsum
        cases hsum
        exact hlens _ _ _ hlen

/-- Without wrapping, a field ends after it began. -/
theorem nextPos_climbs {j : Nat} (hi : i < raw.length) (hno : NoWrap bits a.fixed raw i)
    (hnext : nextPos bits a.fixed raw i = some j) : i < j := by
  obtain ⟨sum, hsum, rfl⟩ := Option.map_eq_some_iff.mp hnext
  rw [Nat.mod_eq_of_lt (hno sum hsum)]
  cases hlen : lenField raw i with
  | none => exact (fieldSum_other hi hlen hsum).1
  | some field =>
      obtain ⟨number, start, len⟩ := field
      obtain ⟨hstart, -⟩ := @fieldEnd_len bits raw i number start len hi hlen
      rw [fieldSum_len hlen] at hsum
      cases hsum
      omega

/-! ### What stands at a position -/

section At

variable {tag : UInt64} {n : Nat}

/-- The tag is inside the buffer, and the position after it is no more than its size. -/
theorem tag_inside (hi : i < raw.length) (hsize : raw.length < 2 ^ bits)
    (htag : Protobuf.readVarint (raw.drop i) = some (tag, n)) :
    i + n ≤ raw.length ∧ usize bits (i + n) = i + n := by
  obtain ⟨-, hn, -⟩ := Protobuf.readVarint_size htag
  rw [List.length_drop] at hn
  exact ⟨by omega, usize_of_lt (by omega)⟩

/-- A length that cannot be read. -/
theorem lenField_missing (htag : Protobuf.readVarint (raw.drop i) = some (tag, n))
    (hwire : tag.toNat % 8 = 2) (hlength : Protobuf.readVarint (raw.drop (i + n)) = none) :
    lenField raw i = none ∧ nextPos bits a.fixed raw i = none ∧
      (i + n ≤ raw.length → readLenField bits raw (i + n) = .ok none) := by
  refine ⟨?_, ?_, fun hpos => ?_⟩
  · simp only [lenField, htag, hwire, if_true, hlength]
  · simp only [nextPos, fieldSum, htag, hwire, hlength, Option.map_none]
  · simp only [readLenField, readVarintAt_eq hpos, ok_bind, hlength]
    rfl

theorem lenField_present {len : UInt64} {m : Nat}
    (htag : Protobuf.readVarint (raw.drop i) = some (tag, n)) (hwire : tag.toNat % 8 = 2)
    (hlength : Protobuf.readVarint (raw.drop (i + n)) = some (len, m)) :
    lenField raw i = some (tag.toNat / 8 % 2 ^ 32, i + n + m, len.toNat) := by
  simp only [lenField, htag, hwire, if_true, hlength]

/-- The two additions that skip a field with a length. -/
theorem skip_eq {len : UInt64} {m : Nat} (hpos : i + n ≤ raw.length)
    (hsize : raw.length < 2 ^ bits)
    (hlength : Protobuf.readVarint (raw.drop (i + n)) = some (len, m)) :
    usize bits (usize bits (i + n + m) + usize bits len.toNat) =
      (i + n + m + len.toNat % 2 ^ bits) % 2 ^ bits := by
  obtain ⟨-, hm, -⟩ := Protobuf.readVarint_size hlength
  rw [List.length_drop] at hm
  rw [usize_of_lt (show i + n + m < 2 ^ bits by omega)]
  rfl

/-- A varint that is not a length. -/
theorem nextPos_varint (htag : Protobuf.readVarint (raw.drop i) = some (tag, n))
    (hwire : tag.toNat % 8 = 0) :
    nextPos bits a.fixed raw i =
      (Protobuf.readVarint (raw.drop (i + n))).map fun r => usize bits (i + n + r.2) := by
  simp only [nextPos, fieldSum, htag, hwire, Option.map_map]
  rfl

theorem nextPos_fixed (htag : Protobuf.readVarint (raw.drop i) = some (tag, n))
    (hzero : tag.toNat % 8 ≠ 0) (hwire : tag.toNat % 8 ≠ 2) :
    nextPos bits a.fixed raw i =
      (a.fixed (tag.toNat % 8)).map fun size => usize bits (i + n + size) := by
  rw [nextPos, fieldSum_fixed htag hzero hwire, Option.map_map]
  rfl

end At

/-! ### How an iteration ends -/

section Ends

variable {σ ρ : Type} {number start len : Nat}

theorem moves_stop (r : ρ) (hlen : lenField raw i = none)
    (hnext : nextPos bits a.fixed raw i = none) :
    a.Moves bits raw i (.stop r : Outcome Trap σ ρ) := ⟨hnext, reads_of_none hlen⟩

theorem moves_other {j : Nat} (s : σ) (hlen : lenField raw i = none)
    (hnext : nextPos bits a.fixed raw i = some j) :
    a.Moves bits raw i (.next j s : Outcome Trap σ ρ) := ⟨hnext, reads_of_none hlen⟩

theorem moves_unknown (s : σ) (hlen : lenField raw i = some (number, start, len))
    (hknown : number ∉ a.known) :
    a.Moves bits raw i (.next ((start + len % 2 ^ bits) % 2 ^ bits) s : Outcome Trap σ ρ) := by
  refine ⟨by rw [nextPos, fieldSum_len hlen, Option.map_some], ?_⟩
  intro number' start' len' hlen' hknown'
  rw [hlen] at hlen'
  cases hlen'
  exact absurd hknown' hknown

theorem moves_known (s : σ) (hsize : raw.length < 2 ^ bits)
    (hlen : lenField raw i = some (number, start, len))
    (hinside : start + len % 2 ^ bits ≤ raw.length)
    (hhandles : a.handles number ((raw.drop start).take (len % 2 ^ bits))) :
    a.Moves bits raw i (.next (start + len % 2 ^ bits) s : Outcome Trap σ ρ) := by
  refine ⟨?_, ?_⟩
  · rw [nextPos, fieldSum_len hlen, Option.map_some, Nat.mod_eq_of_lt (by omega)]
  · intro number' start' len' hlen' _
    rw [hlen] at hlen'
    cases hlen'
    exact ⟨hinside, hhandles⟩

theorem moves_fail {e : Trap} (hlen : lenField raw i = some (number, start, len))
    (hknown : number ∈ a.known)
    (hrefuses : start + len % 2 ^ bits ≤ raw.length →
      ¬ a.handles number ((raw.drop start).take (len % 2 ^ bits))) :
    a.Moves bits raw i (.fail e : Outcome Trap σ ρ) := by
  intro hreads
  obtain ⟨hinside, hhandles⟩ := hreads number start len hlen hknown
  exact hrefuses hinside hhandles

end Ends

/-- A loop with these arms reads every field that it comes to and wraps nowhere, if and
only if every field that it comes to allows it. -/
theorem safe_iff {σ : Type} {l : Loop Trap σ (Option σ)} {s : σ} {P : Nat → Prop}
    (hlength : l.size = raw.length) (hmoves : ∀ i s, i < raw.length →
      a.Moves bits raw i (l.step i s)) {fuel : Nat} (hfuel : raw.length < fuel) :
    ((∃ r, l.run fuel 0 s = .ok r) ∧ ∀ i t, l.Reaches 0 s i t → i < raw.length →
        NoWrap bits a.fixed raw i ∧ P i) ↔
      ∀ i, Walk raw.length (nextPos bits a.fixed raw) i → i < raw.length →
        a.Reads bits raw i ∧ NoWrap bits a.fixed raw i ∧ P i := by
  have hfollows : l.Follows (nextPos bits a.fixed raw) := by
    intro i t hi
    have hmove := hmoves i t (hlength ▸ hi)
    cases hstep : l.step i t with
    | fail e => exact trivial
    | stop r =>
        rw [hstep] at hmove
        exact hmove.1
    | next j u =>
        rw [hstep] at hmove
        exact hmove.1
  have hreads (i : Nat) (t : σ) (hi : i < raw.length) :
      (∀ e, l.step i t ≠ .fail e) ↔ a.Reads bits raw i := by
    have hmove := hmoves i t hi
    cases hstep : l.step i t with
    | fail e =>
        rw [hstep] at hmove
        exact iff_of_false (fun hall => hall e rfl) hmove
    | stop r =>
        rw [hstep] at hmove
        refine iff_of_true ?_ hmove.2
        rintro e ⟨⟩
    | next j u =>
        rw [hstep] at hmove
        refine iff_of_true ?_ hmove.2
        rintro e ⟨⟩
  rw [← hlength] at hfuel
  have hclimbs : ∀ i t j u, i < l.size → NoWrap bits a.fixed raw i ∧ P i →
      l.step i t = .next j u → i < j := by
    intro i t j u hi hQ hstep
    have hmove := hmoves i t (hlength ▸ hi)
    rw [hstep] at hmove
    exact nextPos_climbs (hlength ▸ hi) hQ.1 hmove.1
  have hgood : ∀ i t, i < l.size →
      (((∀ e, l.step i t ≠ .fail e) ∧ NoWrap bits a.fixed raw i ∧ P i) ↔
        a.Reads bits raw i ∧ NoWrap bits a.fixed raw i ∧ P i) :=
    fun i t hi => and_congr_left' (hreads i t (hlength ▸ hi))
  have hsafe := hfollows.safe_iff (s := s) hclimbs hgood hfuel
  rw [hlength] at hsafe
  exact hsafe

end Arms

/-! ## One iteration of `decode_header` -/

/-- The arms of `decode_header`: any slice will do, and a value of fixed width ends the
loop. -/
def headerArms : Arms where
  known := [1, 2]
  handles _ _ := True
  fixed _ := none
  fixed_le := by
    rintro wire size ⟨⟩

/-- The loop of `decode_header`. -/
def headerLoop (bits : Nat) (msg : Bytes) : Loop Trap (Str × Str) (Option (Str × Str)) :=
  fieldLoop msg.length (decodeHeaderField bits msg)

section Header

variable {bits : Nat} {msg : Bytes} {i : Nat} {tag : UInt64} {n : Nat}

/-- An iteration on a field with a length. -/
theorem headerLoop_moves_len (header : Str × Str) (hi : i < msg.length)
    (hsize : msg.length < 2 ^ bits) (htag : Protobuf.readVarint (msg.drop i) = some (tag, n))
    (hwire : tag.toNat % 8 = 2) :
    headerArms.Moves bits msg i ((headerLoop bits msg).step i header) := by
  obtain ⟨hpos, hstart⟩ := Arms.tag_inside hi hsize htag
  obtain ⟨hlow, hhigh⟩ := tag_split tag
  simp only [headerLoop, fieldLoop, decodeHeaderField, readVarintAt_eq (Nat.le_of_lt hi), ok_bind,
    htag, hstart, hlow, hhigh, readVarintAt_eq hpos]
  cases hlength : Protobuf.readVarint (msg.drop (i + n)) with
  | none =>
      obtain ⟨hfield, hnext, hnone⟩ :=
        @Arms.lenField_missing headerArms bits msg i tag n htag hwire hlength
      simp only [hnone hpos, ok_bind, hwire]
      by_cases hkey : tag.toNat / 8 % 2 ^ 32 = 1
      · rw [if_pos ⟨hkey, trivial⟩]
        exact Arms.moves_stop none hfield hnext
      · rw [if_neg (fun hand => hkey hand.1)]
        by_cases hval : tag.toNat / 8 % 2 ^ 32 = 2
        · rw [if_pos ⟨hval, trivial⟩]
          exact Arms.moves_stop none hfield hnext
        · rw [if_neg (fun hand => hval hand.1), if_neg (by omega), if_pos trivial]
          exact Arms.moves_stop none hfield hnext
  | some r =>
      obtain ⟨len, m⟩ := r
      have hfield := Arms.lenField_present htag hwire hlength
      have hdata := readLenField_eq hpos hsize hlength
      simp only [hwire, Arms.skip_eq hpos hsize hlength]
      by_cases hkey : tag.toNat / 8 % 2 ^ 32 = 1
      · rw [if_pos ⟨hkey, trivial⟩]
        obtain ⟨hinside, hok⟩ | ⟨hout, e, herror⟩ := hdata
        · rw [hok]
          exact Arms.moves_known _ hsize hfield hinside trivial
        · rw [herror]
          exact Arms.moves_fail hfield (List.mem_pair.mpr (.inl hkey))
            (fun h => absurd h (Nat.not_le_of_lt hout))
      · rw [if_neg (fun hand => hkey hand.1)]
        by_cases hval : tag.toNat / 8 % 2 ^ 32 = 2
        · rw [if_pos ⟨hval, trivial⟩]
          obtain ⟨hinside, hok⟩ | ⟨hout, e, herror⟩ := hdata
          · rw [hok]
            exact Arms.moves_known _ hsize hfield hinside trivial
          · rw [herror]
            exact Arms.moves_fail hfield (List.mem_pair.mpr (.inr hval))
              (fun h => absurd h (Nat.not_le_of_lt hout))
        · rw [if_neg (fun hand => hval hand.1), if_neg (by omega), if_pos trivial]
          exact Arms.moves_unknown _ hfield (mt List.mem_pair.mp (not_or.mpr ⟨hkey, hval⟩))

/-- An iteration on any other field. -/
theorem headerLoop_moves_other (header : Str × Str) (hi : i < msg.length)
    (hsize : msg.length < 2 ^ bits) (htag : Protobuf.readVarint (msg.drop i) = some (tag, n))
    (hwire : tag.toNat % 8 ≠ 2) :
    headerArms.Moves bits msg i ((headerLoop bits msg).step i header) := by
  obtain ⟨hpos, hstart⟩ := Arms.tag_inside hi hsize htag
  obtain ⟨hlow, hhigh⟩ := tag_split tag
  have hfield : lenField msg i = none := by
    simp only [lenField, htag, if_neg hwire]
  simp only [headerLoop, fieldLoop, decodeHeaderField, readVarintAt_eq (Nat.le_of_lt hi), ok_bind,
    htag, hstart, hlow, hhigh, readVarintAt_eq hpos]
  rw [if_neg (fun hand => hwire hand.2), if_neg (fun hand => hwire hand.2)]
  by_cases hzero : tag.toNat % 8 = 0
  · have hnext := @Arms.nextPos_varint headerArms bits msg i tag n htag hzero
    rw [if_pos hzero]
    cases hread : Protobuf.readVarint (msg.drop (i + n)) with
    | none =>
        rw [hread] at hnext
        exact Arms.moves_stop none hfield hnext
    | some r =>
        rw [hread] at hnext
        exact Arms.moves_other header hfield hnext
  · rw [if_neg hzero, if_neg hwire]
    exact Arms.moves_stop (some header) hfield (Arms.nextPos_fixed htag hzero hwire)

theorem headerLoop_moves (header : Str × Str) (hi : i < msg.length)
    (hsize : msg.length < 2 ^ bits) :
    headerArms.Moves bits msg i ((headerLoop bits msg).step i header) := by
  cases htag : Protobuf.readVarint (msg.drop i) with
  | none =>
      simp only [headerLoop, fieldLoop, decodeHeaderField, readVarintAt_eq (Nat.le_of_lt hi),
        ok_bind, htag]
      exact Arms.moves_stop none (by simp only [lenField, htag])
        (by simp only [nextPos, fieldSum, htag, Option.map_none])
  | some r =>
      by_cases hwire : r.1.toNat % 8 = 2
      · exact headerLoop_moves_len header hi hsize htag hwire
      · exact headerLoop_moves_other header hi hsize htag hwire

end Header

/-! ## One iteration of `decode_http_response` -/

/-- The sizes of the values that `decode_http_response` skips unread. -/
def fixedSize : Nat → Option Nat
  | 5 => some 4
  | 1 => some 8
  | _ => none

/-- The arms of `decode_http_response`: the slice of a header goes to `decode_header`. -/
def responseArms (bits : Nat) : Arms where
  known := [2, 3]
  handles number data := number = 2 → ∃ header, decodeHeader bits data = .ok header
  fixed := fixedSize
  fixed_le := by
    intro wire size h
    unfold fixedSize at h
    split at h
    · cases h
      omega
    · cases h
      omega
    · cases h

/-- The loop of `decode_http_response`. -/
def responseLoop (bits : Nat) (raw : Bytes) : Loop Trap Response (Option Response) :=
  fieldLoop raw.length (decodeResponseField bits raw)

section Response

variable {bits : Nat} {raw : Bytes} {i : Nat} {tag : UInt64} {n : Nat}

/-- An iteration on a field with a length. -/
theorem responseLoop_moves_len (response : Response) (hi : i < raw.length)
    (hsize : raw.length < 2 ^ bits) (htag : Protobuf.readVarint (raw.drop i) = some (tag, n))
    (hwire : tag.toNat % 8 = 2) :
    (responseArms bits).Moves bits raw i ((responseLoop bits raw).step i response) := by
  obtain ⟨hpos, hstart⟩ := Arms.tag_inside hi hsize htag
  obtain ⟨hlow, hhigh⟩ := tag_split tag
  simp only [responseLoop, fieldLoop, decodeResponseField, readVarintAt_eq (Nat.le_of_lt hi),
    ok_bind, htag, hstart, hlow, hhigh, readVarintAt_eq hpos]
  rw [if_neg (by omega)]
  cases hlength : Protobuf.readVarint (raw.drop (i + n)) with
  | none =>
      obtain ⟨hfield, hnext, hnone⟩ :=
        @Arms.lenField_missing (responseArms bits) bits raw i tag n htag hwire hlength
      simp only [hnone hpos, ok_bind, hwire]
      by_cases hheader : tag.toNat / 8 % 2 ^ 32 = 2
      · rw [if_pos ⟨hheader, trivial⟩]
        exact Arms.moves_stop none hfield hnext
      · rw [if_neg (fun hand => hheader hand.1)]
        by_cases hbody : tag.toNat / 8 % 2 ^ 32 = 3
        · rw [if_pos ⟨hbody, trivial⟩]
          exact Arms.moves_stop none hfield hnext
        · rw [if_neg (fun hand => hbody hand.1), if_neg (by omega), if_pos trivial]
          exact Arms.moves_stop none hfield hnext
  | some r =>
      obtain ⟨len, m⟩ := r
      have hfield := Arms.lenField_present htag hwire hlength
      have hdata := readLenField_eq hpos hsize hlength
      simp only [hwire, Arms.skip_eq hpos hsize hlength]
      by_cases hheader : tag.toNat / 8 % 2 ^ 32 = 2
      · rw [if_pos ⟨hheader, trivial⟩]
        obtain ⟨hinside, hok⟩ | ⟨hout, e, herror⟩ := hdata
        · rw [hok]
          simp only [ok_bind]
          -- the traps of `decode_header` are traps of the loop
          cases hdecode : decodeHeader bits
              ((raw.drop (i + n + m)).take (len.toNat % 2 ^ bits)) with
          | error e =>
              refine Arms.moves_fail hfield (List.mem_pair.mpr (.inl hheader)) ?_
              intro _ hhandles
              obtain ⟨header, hheader⟩ := hhandles hheader
              rw [hdecode] at hheader
              cases hheader
          | ok header =>
              cases header with
              | none => exact Arms.moves_known _ hsize hfield hinside fun _ => ⟨_, hdecode⟩
              | some header => exact Arms.moves_known _ hsize hfield hinside fun _ => ⟨_, hdecode⟩
        · rw [herror]
          exact Arms.moves_fail hfield (List.mem_pair.mpr (.inl hheader))
            (fun h => absurd h (Nat.not_le_of_lt hout))
      · rw [if_neg (fun hand => hheader hand.1)]
        by_cases hbody : tag.toNat / 8 % 2 ^ 32 = 3
        · rw [if_pos ⟨hbody, trivial⟩]
          obtain ⟨hinside, hok⟩ | ⟨hout, e, herror⟩ := hdata
          · rw [hok]
            exact Arms.moves_known _ hsize hfield hinside fun h => absurd h hheader
          · rw [herror]
            exact Arms.moves_fail hfield (List.mem_pair.mpr (.inr hbody))
              (fun h => absurd h (Nat.not_le_of_lt hout))
        · rw [if_neg (fun hand => hbody hand.1), if_neg (by omega), if_pos trivial]
          exact Arms.moves_unknown _ hfield
            (mt List.mem_pair.mp (not_or.mpr ⟨hheader, hbody⟩))

/-- An iteration on any other field. -/
theorem responseLoop_moves_other (response : Response) (hi : i < raw.length)
    (hsize : raw.length < 2 ^ bits) (htag : Protobuf.readVarint (raw.drop i) = some (tag, n))
    (hwire : tag.toNat % 8 ≠ 2) :
    (responseArms bits).Moves bits raw i ((responseLoop bits raw).step i response) := by
  obtain ⟨hpos, hstart⟩ := Arms.tag_inside hi hsize htag
  obtain ⟨hlow, hhigh⟩ := tag_split tag
  have hfield : lenField raw i = none := by
    simp only [lenField, htag, if_neg hwire]
  simp only [responseLoop, fieldLoop, decodeResponseField, readVarintAt_eq (Nat.le_of_lt hi),
    ok_bind, htag, hstart, hlow, hhigh, readVarintAt_eq hpos]
  rw [if_neg (fun hand : _ ∧ tag.toNat % 8 = 2 => hwire hand.2),
    if_neg (fun hand : _ ∧ tag.toNat % 8 = 2 => hwire hand.2)]
  by_cases hzero : tag.toNat % 8 = 0
  · have hnext := @Arms.nextPos_varint (responseArms bits) bits raw i tag n htag hzero
    simp only [hzero]
    by_cases hstatus : tag.toNat / 8 % 2 ^ 32 = 1
    · rw [if_pos ⟨hstatus, trivial⟩]
      cases hread : Protobuf.readVarint (raw.drop (i + n)) with
      | none =>
          rw [hread] at hnext
          exact Arms.moves_stop none hfield hnext
      | some r =>
          rw [hread] at hnext
          exact Arms.moves_other _ hfield hnext
    · rw [if_neg (fun hand => hstatus hand.1), if_pos trivial]
      cases hread : Protobuf.readVarint (raw.drop (i + n)) with
      | none =>
          rw [hread] at hnext
          exact Arms.moves_stop none hfield hnext
      | some r =>
          rw [hread] at hnext
          exact Arms.moves_other response hfield hnext
  · have hnext := @Arms.nextPos_fixed (responseArms bits) bits raw i tag n htag hzero hwire
    rw [if_neg (fun hand => hzero hand.2), if_neg hzero, if_neg hwire]
    by_cases hfive : tag.toNat % 8 = 5
    · rw [hfive] at hnext
      rw [if_pos hfive]
      exact Arms.moves_other response hfield hnext
    · rw [if_neg hfive]
      by_cases hone : tag.toNat % 8 = 1
      · rw [hone] at hnext
        rw [if_pos hone]
        exact Arms.moves_other response hfield hnext
      · rw [if_neg hone]
        apply Arms.moves_stop (some response) hfield
        rw [hnext]
        simp only [responseArms, fixedSize, Option.map_none]

theorem responseLoop_moves (response : Response) (hi : i < raw.length)
    (hsize : raw.length < 2 ^ bits) :
    (responseArms bits).Moves bits raw i ((responseLoop bits raw).step i response) := by
  cases htag : Protobuf.readVarint (raw.drop i) with
  | none =>
      simp only [responseLoop, fieldLoop, decodeResponseField, readVarintAt_eq (Nat.le_of_lt hi),
        ok_bind, htag]
      exact Arms.moves_stop none (by simp only [lenField, htag])
        (by simp only [nextPos, fieldSum, htag, Option.map_none])
  | some r =>
      by_cases hwire : r.1.toNat % 8 = 2
      · exact responseLoop_moves_len response hi hsize htag hwire
      · exact responseLoop_moves_other response hi hsize htag hwire

end Response

/-! ## Totality -/

/-- One call of `decode_header` is total: it returns, so it neither traps nor loops
forever, and no iteration wraps the position. -/
structure TotalHeader (bits : Nat) (msg : Bytes) : Prop where
  returns : ∃ answer, decodeHeader bits msg = .ok answer
  noWrap : ∀ i header, (headerLoop bits msg).Reaches 0 ([], []) i header → i < msg.length →
    NoWrap bits headerArms.fixed msg i

/-- The same for `decode_http_response` and all its calls of `decode_header`. -/
structure TotalResponse (bits : Nat) (raw : Bytes) : Prop where
  returns : ∃ answer, decodeHttpResponse bits raw = .ok answer
  noWrap : ∀ i response, (responseLoop bits raw).Reaches 0 {} i response → i < raw.length →
    NoWrap bits fixedSize raw i
  headers : ∀ i response, (responseLoop bits raw).Reaches 0 {} i response → i < raw.length →
    ∀ start len, lenField raw i = some (2, start, len) →
      TotalHeader bits ((raw.drop start).take (len % 2 ^ bits))

/-- The length of the field at `i`, if it has one, is inside the address space, and
inside the buffer if the field is known. -/
def LenFits (known : List Nat) (bits : Nat) (raw : Bytes) (i : Nat) : Prop :=
  ∀ number start len, lenField raw i = some (number, start, len) →
    start + len % 2 ^ bits < 2 ^ bits ∧
      (number ∈ known → start + len % 2 ^ bits ≤ raw.length)

instance (known : List Nat) (bits : Nat) (raw : Bytes) (i : Nat) :
    Decidable (LenFits known bits raw i) :=
  decidable_of_iff (∀ f ∈ lenField raw i, f.2.1 + f.2.2 % 2 ^ bits < 2 ^ bits ∧
      (f.1 ∈ known → f.2.1 + f.2.2 % 2 ^ bits ≤ raw.length))
    ⟨fun h number start len hlen => h (number, start, len) hlen,
      fun h f hf => h f.1 f.2.1 f.2.2 hf⟩

/-- Every field that `decode_header` comes to has a length that fits. -/
def HeaderFits (bits : Nat) (msg : Bytes) : Prop :=
  ∀ i, Walk msg.length (nextPos bits headerArms.fixed msg) i → i < msg.length →
    LenFits [1, 2] bits msg i

/-- The same for `decode_http_response`, and for the headers among the fields. -/
def ResponseFits (bits : Nat) (raw : Bytes) : Prop :=
  ∀ i, Walk raw.length (nextPos bits fixedSize raw) i → i < raw.length →
    LenFits [2, 3] bits raw i ∧ ∀ start len, lenField raw i = some (2, start, len) →
      HeaderFits bits ((raw.drop start).take (len % 2 ^ bits))

/-- A length fits when it does not wrap and the data of a known field is there. -/
theorem lenFits_iff {a : Arms} {bits : Nat} {raw : Bytes} {i : Nat} (hi : i < raw.length)
    (hsize : raw.length + 8 < 2 ^ bits) :
    (a.Reads bits raw i ∧ NoWrap bits a.fixed raw i) ↔
      LenFits a.known bits raw i ∧ ∀ number start len,
        lenField raw i = some (number, start, len) → number ∈ a.known →
          a.handles number ((raw.drop start).take (len % 2 ^ bits)) := by
  rw [Arms.noWrap_iff hi hsize]
  constructor
  · rintro ⟨hreads, hlens⟩
    refine ⟨fun number start len hlen => ⟨hlens number start len hlen, fun hknown => ?_⟩, ?_⟩
    · exact (hreads number start len hlen hknown).1
    · exact fun number start len hlen hknown => (hreads number start len hlen hknown).2
  · rintro ⟨hfits, hhandles⟩
    refine ⟨fun number start len hlen hknown => ⟨?_, hhandles number start len hlen hknown⟩, ?_⟩
    · exact (hfits number start len hlen).2 hknown
    · exact fun number start len hlen => (hfits number start len hlen).1

section Total

variable {bits : Nat}

/-- `decode_header` returns when its loop does. -/
theorem decodeHeader_returns (msg : Bytes) :
    (∃ answer, decodeHeader bits msg = .ok answer) ↔
      ∃ r, (headerLoop bits msg).run (msg.length + 1) 0 ([], []) = .ok r := by
  have hrun : decodeHeaderLoop bits msg (msg.length + 1) 0 ([], []) =
      (headerLoop bits msg).run (msg.length + 1) 0 ([], []) := by
    apply fieldLoop_run
    · intro pos header
      rfl
    · intro fuel pos header
      rw [decodeHeaderLoop]
      cases decodeHeaderField bits msg pos header with
      | error e => rfl
      | ok iteration => cases iteration <;> rfl
  rw [decodeHeader, hrun]
  cases (headerLoop bits msg).run (msg.length + 1) 0 ([], []) with
  | error e =>
      refine iff_of_false ?_ ?_
      · rintro ⟨answer, ⟨⟩⟩
      · rintro ⟨answer, ⟨⟩⟩
  | ok r =>
      refine iff_of_true ?_ ⟨r, rfl⟩
      cases r with
      | none => exact ⟨none, rfl⟩
      | some header => exact ⟨if header.1.isEmpty then none else some header, rfl⟩

theorem totalHeader_iff {msg : Bytes} (hsize : msg.length + 8 < 2 ^ bits) :
    TotalHeader bits msg ↔ HeaderFits bits msg := by
  have hsafe : ((∃ r, (headerLoop bits msg).run (msg.length + 1) 0 ([], []) = .ok r) ∧
      ∀ i header, (headerLoop bits msg).Reaches 0 ([], []) i header → i < msg.length →
        NoWrap bits headerArms.fixed msg i ∧ True) ↔
      ∀ i, Walk msg.length (nextPos bits headerArms.fixed msg) i → i < msg.length →
        headerArms.Reads bits msg i ∧ NoWrap bits headerArms.fixed msg i ∧ True :=
    Arms.safe_iff rfl (fun i header hi => headerLoop_moves header hi (by omega))
      (Nat.lt_succ_self msg.length)
  simp only [and_true] at hsafe
  have hfits : (∀ i, Walk msg.length (nextPos bits headerArms.fixed msg) i → i < msg.length →
      headerArms.Reads bits msg i ∧ NoWrap bits headerArms.fixed msg i) ↔ HeaderFits bits msg := by
    refine forall_congr' fun i => imp_congr_right fun _ => forall_congr' fun hi => ?_
    rw [lenFits_iff hi hsize]
    exact and_iff_left fun number start len _ _ => trivial
  rw [← hfits, ← hsafe, ← decodeHeader_returns]
  exact ⟨fun h => ⟨h.returns, h.noWrap⟩, fun h => ⟨h.1, h.2⟩⟩

theorem totalResponse_iff {raw : Bytes} (hsize : raw.length + 8 < 2 ^ bits) :
    TotalResponse bits raw ↔ ResponseFits bits raw := by
  have hrun : decodeHttpResponse bits raw =
      (responseLoop bits raw).run (raw.length + 1) 0 {} := by
    rw [decodeHttpResponse]
    apply fieldLoop_run
    · intro pos response
      rfl
    · intro fuel pos response
      rw [decodeResponseLoop]
      cases decodeResponseField bits raw pos response with
      | error e => rfl
      | ok iteration => cases iteration <;> rfl
  have hheader (start len : Nat) :
      TotalHeader bits ((raw.drop start).take (len % 2 ^ bits)) ↔
        HeaderFits bits ((raw.drop start).take (len % 2 ^ bits)) := by
    apply totalHeader_iff
    rw [List.length_take, List.length_drop]
    omega
  have hsafe : ((∃ r, (responseLoop bits raw).run (raw.length + 1) 0 {} = .ok r) ∧
      ∀ i response, (responseLoop bits raw).Reaches 0 {} i response → i < raw.length →
        NoWrap bits fixedSize raw i ∧ ∀ start len, lenField raw i = some (2, start, len) →
          TotalHeader bits ((raw.drop start).take (len % 2 ^ bits))) ↔
      ∀ i, Walk raw.length (nextPos bits fixedSize raw) i → i < raw.length →
        (responseArms bits).Reads bits raw i ∧ NoWrap bits fixedSize raw i ∧
          ∀ start len, lenField raw i = some (2, start, len) →
            TotalHeader bits ((raw.drop start).take (len % 2 ^ bits)) :=
    Arms.safe_iff rfl (fun i response hi => responseLoop_moves response hi (by omega))
      (Nat.lt_succ_self raw.length)
  have hfits : (∀ i, Walk raw.length (nextPos bits fixedSize raw) i → i < raw.length →
      (responseArms bits).Reads bits raw i ∧ NoWrap bits fixedSize raw i ∧
        ∀ start len, lenField raw i = some (2, start, len) →
          TotalHeader bits ((raw.drop start).take (len % 2 ^ bits))) ↔ ResponseFits bits raw := by
    refine forall_congr' fun i => imp_congr_right fun _ => forall_congr' fun hi => ?_
    rw [← and_assoc]
    have hboth := @lenFits_iff (responseArms bits) bits raw i hi hsize
    constructor
    · rintro ⟨hreads, htotal⟩
      exact ⟨(hboth.mp hreads).1,
        fun start len hlen => (hheader start len).mp (htotal start len hlen)⟩
    · rintro ⟨hlens, hall⟩
      have htotal : ∀ start len, lenField raw i = some (2, start, len) →
          TotalHeader bits ((raw.drop start).take (len % 2 ^ bits)) :=
        fun start len hlen => (hheader start len).mpr (hall start len hlen)
      refine ⟨hboth.mpr ⟨hlens, ?_⟩, htotal⟩
      rintro number start len hlen - rfl
      exact (htotal start len hlen).returns
  rw [← hfits, ← hsafe, ← hrun]
  constructor
  · rintro ⟨hreturns, hno, hheaders⟩
    exact ⟨hreturns, fun i response hreach hi =>
      ⟨hno i response hreach hi, hheaders i response hreach hi⟩⟩
  · rintro ⟨hreturns, hall⟩
    exact ⟨hreturns, fun i response hreach hi => (hall i response hreach hi).1,
      fun i response hreach hi => (hall i response hreach hi).2⟩

/-- Both decoders are total exactly on the buffers whose lengths fit. -/
theorem decoders_total_iff (hbits : bits = 32 ∨ bits = 64) (raw : Bytes)
    (hsize : raw.length < 2 ^ (bits - 1)) :
    (TotalResponse bits raw ↔ ResponseFits bits raw) ∧
      (TotalHeader bits raw ↔ HeaderFits bits raw) := by
  have hroom : raw.length + 8 < 2 ^ bits := by
    obtain rfl | rfl := hbits <;> omega
  exact ⟨totalResponse_iff hroom, totalHeader_iff hroom⟩

end Total

/-- A response with one header and no body. -/
def shortResponse : Bytes := [0x12, 0x05, 0x0A, 0x01, 0x61, 0x12, 0x00]

theorem decoders_total_iff_short :
    TotalResponse 32 shortResponse ∧ TotalHeader 32 shortResponse := by
  have hiff := decoders_total_iff (.inl rfl) shortResponse (by decide)
  refine ⟨hiff.1.mpr fun i _ hi => ⟨?_, fun start len hlen j _ hj => ?_⟩,
    hiff.2.mpr fun i _ hi => ?_⟩
  · exact (by decide : ∀ i < 7, LenFits [2, 3] 32 shortResponse i) i hi
  · exact (by decide : ∀ i < 7, ∀ f ∈ lenField shortResponse i, f.1 = 2 →
      ∀ j < ((shortResponse.drop f.2.1).take (f.2.2 % 2 ^ 32)).length,
        LenFits [1, 2] 32 ((shortResponse.drop f.2.1).take (f.2.2 % 2 ^ 32)) j)
      i hi (2, start, len) hlen rfl j hj
  · exact (by decide : ∀ i < 7, LenFits [1, 2] 32 shortResponse i) i hi

theorem response_not_total {bits : Nat} {raw : Bytes} {e : Trap}
    (h : decodeHttpResponse bits raw = .error e) : ¬ TotalResponse bits raw := by
  rintro ⟨⟨answer, hanswer⟩, -, -⟩
  rw [h] at hanswer
  cases hanswer

/-- A body and a key of five bytes of which none has arrived make the slices end past
the buffer, in both decoders, and an unknown field of `2^32 - 6` bytes takes the position
back to the field. -/
theorem lengths_trap :
    (decodeHttpResponse 32 [0x1A, 0x05] = .error .sliceEnd ∧
        ¬ TotalResponse 32 [0x1A, 0x05]) ∧
      (decodeHttpResponse 32 [0x12, 0x02, 0x0A, 0x05] = .error .sliceEnd ∧
        ¬ TotalResponse 32 [0x12, 0x02, 0x0A, 0x05]) ∧
      (decodeHeader 32 [0x0A, 0x05] = .error .sliceEnd ∧ ¬ TotalHeader 32 [0x0A, 0x05]) ∧
      decodeHttpResponse 32 [0x7A, 0xFA, 0xFF, 0xFF, 0xFF, 0x0F] = .error .diverges ∧
        ¬ TotalResponse 32 [0x7A, 0xFA, 0xFF, 0xFF, 0xFF, 0x0F] := by
  have hbody : decodeHttpResponse 32 [0x1A, 0x05] = .error .sliceEnd := by decide
  have hinner : decodeHttpResponse 32 [0x12, 0x02, 0x0A, 0x05] = .error .sliceEnd := by decide
  have hkey : decodeHeader 32 [0x0A, 0x05] = .error .sliceEnd := by decide
  have hloop : decodeHttpResponse 32 [0x7A, 0xFA, 0xFF, 0xFF, 0xFF, 0x0F] =
      .error .diverges := by decide
  refine ⟨⟨hbody, response_not_total hbody⟩, ⟨hinner, response_not_total hinner⟩, ⟨hkey, ?_⟩,
    hloop, response_not_total hloop⟩
  rintro ⟨⟨answer, hanswer⟩, -⟩
  rw [hkey] at hanswer
  cases hanswer

end Grpcgi.Wasm.HttpBridge
