import Grpcgi.Data.Text
import Mathlib.Data.List.Nodup

/-!
# The frozen header table

`layout` and `render_block` of `docs/spec/tools/header_table.py`, which give every
well-known header name a protobuf field number. The tables of the file are one
instance. `layout` itself is about any table of one direction.
-/

namespace Grpcgi.HeaderTable

inductive Direction where
  | request
  | response
  deriving DecidableEq, Repr

/-- `HOT_START`. -/
def hotStart : Direction → Nat
  | .request => 6
  | .response => 3

/-- The last slot of the hot range. -/
def hotEnd : Nat := 15

def restStart : Nat := 16

def restEnd : Nat := 199

/-- A row of the table. -/
structure Row where
  number : Nat
  header : Str
  decl : Str
  deriving DecidableEq, Repr

/-- The tables of one direction. A typed slot has a header and the declaration of its
field. -/
structure Table where
  direction : Direction
  hot : List Str
  typed : Nat → Option (Str × Str)
  rest : List Str
  typed_slots : ∀ n, (typed n).isSome → hotStart direction ≤ n ∧ n ≤ hotEnd

/-- How the script ends without a result: one of the two assertions of `layout`, `max` of
no rows in `render_block`, or `sys.exit` in `splice`. -/
inductive Abort where
  | tooManyHotHeaders
  | tableOverflow
  | noHotRow
  | markersNotFound (direction : Direction)
  deriving DecidableEq, Repr

/-- `str(n)`. -/
def decimal (n : Nat) : Str := Nat.toDigits 10 n

/-- `field_name`. -/
def fieldName (header : Str) : Str := header.map fun c => if c = '-' then '_' else c

/-- `f"{decl} = {n};"` -/
def numbered (decl : Str) (n : Nat) : Str := decl ++ " = ".toList ++ decimal n ++ ";".toList

/-- The row of a header without a type of its own. -/
def repeatedRow (n : Nat) (header : Str) : Row :=
  ⟨n, header, numbered ("repeated bytes ".toList ++ fieldName header) n⟩

/-- The `while` loop of `layout` over the hot slots: its rows, and the hot headers that
`hot_iter` still has. -/
def hotLoop (typed : Nat → Option (Str × Str)) : Nat → Nat → List Str → List Row × List Str
  | 0, _, hot => ([], hot)
  | fuel + 1, n, hot =>
    match typed n with
    | some (header, decl) =>
      let (rows, left) := hotLoop typed fuel (n + 1) hot
      (⟨n, header, numbered decl n⟩ :: rows, left)
    | none =>
      match hot with
      -- `StopIteration` leaves the loop, and the slots after `n` with it
      | [] => ([], [])
      | header :: hot =>
        let (rows, left) := hotLoop typed fuel (n + 1) hot
        (repeatedRow n header :: rows, left)

/-- The `for` loop of `layout` over the rest. -/
def restLoop : Nat → List Str → Except Abort (List Row)
  | _, [] => .ok []
  | n, header :: rest =>
    if n ≤ restEnd then (restLoop (n + 1) rest).map (repeatedRow n header :: ·)
    else .error .tableOverflow

/-- How many slots the loop may visit. -/
def hotSlots (direction : Direction) : Nat := hotEnd + 1 - hotStart direction

/-- `layout`. -/
def layout (t : Table) : Except Abort (List Row) :=
  let (rows, left) := hotLoop t.typed (hotSlots t.direction) (hotStart t.direction) t.hot
  if left = [] then (restLoop restStart t.rest).map (rows ++ ·) else .error .tooManyHotHeaders

def directionName : Direction → Str
  | .request => "request".toList
  | .response => "response".toList

/-- The range that `render_block` declares reserved after the last of its rows. -/
def reservedRange (rows : List Row) : Option (Nat × Nat) :=
  match rows.getLast? with
  | none => none
  | some row => if row.number < restEnd then some (row.number + 1, restEnd) else none

/-- The lines that `render_block` writes for a row. -/
def rowLines (row : Row) : List Str :=
  (if row.number = restStart then
    [[], "  // Remainder of the table, alphabetical. Two-byte tags.".toList] else []) ++
  ["  ".toList ++ row.decl ++ "  // ".toList ++ row.header]

/-- The lines that `render_block` writes for the reserved range. -/
def reservedLines (range : Nat × Nat) : List Str :=
  [[], "  // Permanently reserved. The table is frozen; new names use `headers`.".toList,
    "  reserved ".toList ++ decimal range.1 ++ " to ".toList ++ decimal range.2 ++ ";".toList]

/-- `render_block`. -/
def renderBlock (t : Table) : Except Abort Str := do
  let rows ← layout t
  let lines :=
    ["  // Frozen header table (".toList ++ directionName t.direction ++
        "). Generated by docs/spec/tools/header_table.py.".toList,
      "  // Every value of a header named here MUST be carried in its field, never in".toList,
      "  // `headers`. Order among values of one name is significant and preserved.".toList]
  -- the value of `last_hot` is not used, but `max` needs a row
  if rows.all fun row => hotEnd < row.number then throw .noHotRow
  let lines := lines ++ rows.flatMap rowLines
  let lines := lines ++ (reservedRange rows).elim [] reservedLines
  return ['\n'].intercalate lines

/-! ## What a layout should be -/

namespace Table

variable (t : Table)

/-- The slots of the hot range. -/
def slots : List Nat := List.range' (hotStart t.direction) (hotSlots t.direction)

/-- How many slots from `n` up to `m` take a hot header. -/
def untyped (typed : Nat → Option (Str × Str)) (n m : Nat) : Nat :=
  (List.range' n (m - n)).countP fun k => (typed k).isNone

/-- The loop gets to the slot: the hot headers do not run out before it. -/
def Reached (n : Nat) : Prop := untyped t.typed (hotStart t.direction) n ≤ t.hot.length

instance (n : Nat) : Decidable (t.Reached n) := inferInstanceAs (Decidable (_ ≤ _))

/-- The typed headers in the slots that satisfy `p`. -/
def typedNames (p : Nat → Bool) : List Str :=
  t.slots.filterMap fun n => if p n then (t.typed n).map Prod.fst else none

/-- Every header that the tables name. -/
def named : List Str := t.hot ++ t.typedNames (fun _ => true) ++ t.rest

/-- The headers that get a row. -/
def placed : List Str := t.hot ++ t.typedNames (fun n => t.Reached n) ++ t.rest

end Table

/-- Every header has one row, and the numbers are in their range, strictly increasing and
not reserved. -/
structure Complete (t : Table) (rows : List Row) : Prop where
  once : ∀ name ∈ t.named, (rows.map Row.header).count name = 1
  increasing : rows.Pairwise fun a b => a.number < b.number
  inside : ∀ row ∈ rows, hotStart t.direction ≤ row.number ∧ row.number ≤ restEnd
  unreserved : ∀ range, reservedRange rows = some range → ∀ row ∈ rows,
    ¬ (range.1 ≤ row.number ∧ row.number ≤ range.2)

/-- The headers with a row are pairwise distinct, and a typed header whose slot the loop
does not reach is one of them. -/
structure Covered (t : Table) : Prop where
  nodup : t.placed.Nodup
  lost : ∀ name ∈ t.typedNames (fun _ => true), name ∈ t.placed

/-! ## The numbers -/

theorem hotLoop_numbers (typed : Nat → Option (Str × Str)) (fuel n : Nat) (hot : List Str) :
    (hotLoop typed fuel n hot).1.Pairwise (fun a b => a.number < b.number) ∧
      ∀ row ∈ (hotLoop typed fuel n hot).1, n ≤ row.number ∧ row.number < n + fuel := by
  induction fuel generalizing n hot with
  | zero => exact ⟨.nil, fun _ h => absurd h List.not_mem_nil⟩
  | succ fuel ih =>
      have hcons (row : Row) (hrow : row.number = n) (hot : List Str) :
          (row :: (hotLoop typed fuel (n + 1) hot).1).Pairwise
              (fun a b => a.number < b.number) ∧
            ∀ row' ∈ row :: (hotLoop typed fuel (n + 1) hot).1,
              n ≤ row'.number ∧ row'.number < n + (fuel + 1) := by
        obtain ⟨hsorted, hbounds⟩ := ih (n + 1) hot
        refine ⟨List.pairwise_cons.mpr ⟨?_, hsorted⟩, List.forall_mem_cons.mpr ⟨?_, ?_⟩⟩
        · intro row' hrow'
          have hbound := hbounds row' hrow'
          omega
        · omega
        · intro row' hrow'
          have hbound := hbounds row' hrow'
          omega
      simp only [hotLoop]
      split
      · exact hcons _ rfl hot
      · split
        · exact ⟨.nil, fun _ h => absurd h List.not_mem_nil⟩
        · exact hcons _ rfl _

theorem restLoop_rows {n : Nat} {rest : List Str} {rows : List Row}
    (h : restLoop n rest = .ok rows) :
    rows.map Row.header = rest ∧ rows.Pairwise (fun a b => a.number < b.number) ∧
      ∀ row ∈ rows, n ≤ row.number ∧ row.number ≤ restEnd := by
  induction rest generalizing n rows with
  | nil =>
      cases h
      exact ⟨rfl, .nil, fun _ h => absurd h List.not_mem_nil⟩
  | cons header rest ih =>
      simp only [restLoop] at h
      split at h
      · rename_i hn
        cases hrest : restLoop (n + 1) rest with
        | error e =>
            rw [hrest] at h
            cases h
        | ok more =>
            rw [hrest] at h
            cases h
            obtain ⟨hheaders, hsorted, hbounds⟩ := ih hrest
            refine ⟨congrArg (header :: ·) hheaders, List.pairwise_cons.mpr ⟨?_, hsorted⟩,
              List.forall_mem_cons.mpr ⟨⟨Nat.le_refl n, hn⟩, ?_⟩⟩
            · intro row hrow
              exact (hbounds row hrow).1
            · intro row hrow
              have hbound := hbounds row hrow
              omega
      · cases h

/-! ## The headers -/

theorem untyped_self (typed : Nat → Option (Str × Str)) (n : Nat) :
    Table.untyped typed n n = 0 := by
  rw [Table.untyped, Nat.sub_self]
  rfl

theorem untyped_succ (typed : Nat → Option (Str × Str)) {n k : Nat} (h : n < k) :
    Table.untyped typed n k =
      Table.untyped typed (n + 1) k + if (typed n).isNone then 1 else 0 := by
  obtain ⟨d, rfl⟩ := Nat.exists_eq_add_of_le' (Nat.succ_le_of_lt h)
  have hlength : d + n.succ - n = d + 1 := by omega
  have hrest : d + n.succ - (n + 1) = d := by omega
  rw [Table.untyped, Table.untyped, hlength, hrest, List.range'_succ, List.countP_cons]

/-- The typed header in slot `k`, if a loop with `left` hot headers gets there from `n`. -/
def reachedAt (typed : Nat → Option (Str × Str)) (n left k : Nat) : Option Str :=
  if Table.untyped typed n k ≤ left then (typed k).map Prod.fst else none

/-- The typed headers of `slots` slots from `n` on that the loop reaches. -/
def reachedNames (typed : Nat → Option (Str × Str)) (n slots left : Nat) : List Str :=
  (List.range' n slots).filterMap (reachedAt typed n left)

theorem mem_slots {n slots k : Nat} (h : k ∈ List.range' (n + 1) slots) : n < k :=
  (List.mem_range'_1.mp h).1

/-- A typed slot takes no hot header. -/
theorem reachedNames_typed {typed : Nat → Option (Str × Str)} {n : Nat} {slot : Str × Str}
    (h : typed n = some slot) (slots left : Nat) :
    reachedNames typed n (slots + 1) left = slot.1 :: reachedNames typed (n + 1) slots left := by
  have hrest : ∀ k ∈ List.range' (n + 1) slots,
      reachedAt typed n left k = reachedAt typed (n + 1) left k := by
    intro k hk
    rw [reachedAt, untyped_succ typed (mem_slots hk), h]
    rfl
  have hfirst : reachedAt typed n left n = some slot.1 := by
    rw [reachedAt, untyped_self, if_pos (Nat.zero_le left), h]
    rfl
  rw [reachedNames, List.range'_succ, List.filterMap_cons_some hfirst,
    List.filterMap_congr hrest, reachedNames]

/-- Any other slot takes one. -/
theorem reachedNames_hot {typed : Nat → Option (Str × Str)} {n : Nat} (h : typed n = none)
    (slots left : Nat) :
    reachedNames typed n (slots + 1) (left + 1) = reachedNames typed (n + 1) slots left := by
  have hrest : ∀ k ∈ List.range' (n + 1) slots,
      reachedAt typed n (left + 1) k = reachedAt typed (n + 1) left k := by
    intro k hk
    rw [reachedAt, untyped_succ typed (mem_slots hk), h]
    exact if_congr Nat.succ_le_succ_iff rfl rfl
  have hfirst : reachedAt typed n (left + 1) n = none := by
    rw [reachedAt, h]
    exact ite_self _
  rw [reachedNames, List.range'_succ, List.filterMap_cons_none hfirst,
    List.filterMap_congr hrest, reachedNames]

/-- Without a hot header for it, the loop ends there. -/
theorem reachedNames_end {typed : Nat → Option (Str × Str)} {n : Nat} (h : typed n = none)
    (slots : Nat) : reachedNames typed n (slots + 1) 0 = [] := by
  rw [reachedNames, List.range'_succ, List.filterMap_eq_nil_iff]
  intro k hk
  obtain rfl | hk := List.mem_cons.mp hk
  · rw [reachedAt, h]
    exact ite_self _
  · have hmany : ¬ Table.untyped typed n k ≤ 0 := by
      rw [untyped_succ typed (mem_slots hk), h]
      exact Nat.not_succ_le_zero _
    rw [reachedAt, if_neg hmany]

theorem reachedNames_eq (t : Table) :
    reachedNames t.typed (hotStart t.direction) (hotSlots t.direction) t.hot.length =
      t.typedNames fun n => t.Reached n := by
  apply List.filterMap_congr
  intro k _
  exact if_congr decide_eq_true_iff.symm rfl rfl

/-- The loop gives a row to every hot header and to the typed headers that it reaches. -/
theorem hotLoop_headers (typed : Nat → Option (Str × Str)) (fuel n : Nat) (hot : List Str)
    (h : (hotLoop typed fuel n hot).2 = []) :
    ((hotLoop typed fuel n hot).1.map Row.header).Perm
      (hot ++ reachedNames typed n fuel hot.length) := by
  induction fuel generalizing n hot with
  | zero =>
      have hnil : hot = [] := h
      rw [hnil]
      exact .refl _
  | succ fuel ih =>
      simp only [hotLoop] at h ⊢
      cases hslot : typed n with
      | some slot =>
          obtain ⟨header, decl⟩ := slot
          simp only [hslot] at h ⊢
          rw [reachedNames_typed hslot]
          exact ((ih (n + 1) hot h).cons header).trans List.perm_middle.symm
      | none =>
          cases hot with
          | nil =>
              simp only [List.length_nil, reachedNames_end hslot]
              exact .refl _
          | cons header hot =>
              simp only [hslot] at h ⊢
              rw [List.length_cons, reachedNames_hot hslot]
              exact (ih (n + 1) hot h).cons header

/-- What `layout` returns, once it returns. -/
theorem layout_rows {t : Table} {rows : List Row} (h : layout t = .ok rows) :
    (rows.map Row.header).Perm t.placed ∧ rows.Pairwise (fun a b => a.number < b.number) ∧
      ∀ row ∈ rows, hotStart t.direction ≤ row.number ∧ row.number ≤ restEnd := by
  have hrange : hotStart t.direction + hotSlots t.direction = restStart := by
    cases t.direction <;> rfl
  obtain ⟨hsorted, hbounds⟩ :=
    hotLoop_numbers t.typed (hotSlots t.direction) (hotStart t.direction) t.hot
  have hheaders := hotLoop_headers t.typed (hotSlots t.direction) (hotStart t.direction) t.hot
  simp only [layout] at h
  split at h
  · rename_i hleft
    cases hrest : restLoop restStart t.rest with
    | error e =>
        rw [hrest] at h
        cases h
    | ok more =>
        rw [hrest] at h
        cases h
        obtain ⟨hnames, hsorted', hbounds'⟩ := restLoop_rows hrest
        refine ⟨?_, List.pairwise_append.mpr ⟨hsorted, hsorted', ?_⟩, ?_⟩
        · rw [List.map_append, hnames, Table.placed, ← reachedNames_eq]
          exact (hheaders hleft).append_right t.rest
        · intro row hrow row' hrow'
          have hlow := hbounds row hrow
          have hhigh := hbounds' row' hrow'
          omega
        · intro row hrow
          obtain hrow | hrow := List.mem_append.mp hrow
          · have hlow := hbounds row hrow
            simp only [restStart] at hrange
            simp only [restEnd]
            omega
          · have hhigh := hbounds' row hrow
            omega
  · cases h

/-- The headers in the rows are the placed ones, so a header is counted alike in both. -/
theorem placed_subset_named (t : Table) : t.placed ⊆ t.named := by
  intro name hname
  simp only [Table.placed, Table.named, Table.typedNames, List.mem_append, List.mem_filterMap]
    at hname ⊢
  obtain (hhot | ⟨k, hk, hslot⟩) | hrest := hname
  · exact .inl (.inl hhot)
  · refine .inl (.inr ⟨k, hk, ?_⟩)
    split at hslot
    · rw [if_pos trivial]
      exact hslot
    · cases hslot
  · exact .inr hrest

/-- The last row has the largest number, so none lies behind it. -/
theorem reservedRange_above {rows : List Row}
    (hsorted : rows.Pairwise fun a b => a.number < b.number) {range : Nat × Nat}
    (h : reservedRange rows = some range) : ∀ row ∈ rows, row.number < range.1 := by
  cases rows.eq_nil_or_concat with
  | inl hnil =>
      rw [hnil] at h
      cases h
  | inr hconcat =>
      obtain ⟨before, last, rfl⟩ := hconcat
      rw [List.concat_eq_append] at hsorted h ⊢
      rw [reservedRange, List.getLast?_concat] at h
      simp only at h
      split at h
      · cases h
        intro row hrow
        obtain hrow | hrow := List.mem_append.mp hrow
        · have hlt :=
            (List.pairwise_append.mp hsorted).2.2 row hrow last (List.mem_singleton_self _)
          exact Nat.lt_succ_of_lt hlt
        · rw [List.mem_singleton.mp hrow]
          exact Nat.lt_succ_self _
      · cases h

/-- A layout loses and reuses nothing exactly when the headers it places are distinct and no
typed header stands behind the end of the hot list without being placed otherwise. -/
theorem layout_complete_iff {t : Table} {rows : List Row} (h : layout t = .ok rows) :
    Complete t rows ↔ Covered t := by
  obtain ⟨hperm, hsorted, hbounds⟩ := layout_rows h
  constructor
  · intro hcomplete
    have honce : ∀ name ∈ t.named, t.placed.count name = 1 := by
      intro name hname
      rw [← hperm.count_eq]
      exact hcomplete.once name hname
    constructor
    · rw [List.nodup_iff_count_le_one]
      intro name
      by_cases hname : name ∈ t.placed
      · exact Nat.le_of_eq (honce name (placed_subset_named t hname))
      · rw [List.count_eq_zero_of_not_mem hname]
        exact Nat.zero_le 1
    · intro name hname
      have hnamed : name ∈ t.named := List.mem_append_left _ (List.mem_append_right _ hname)
      apply List.count_pos_iff.mp
      rw [honce name hnamed]
      exact Nat.one_pos
  · intro hcovered
    refine ⟨?_, hsorted, hbounds, ?_⟩
    · intro name hname
      have hplaced : name ∈ t.placed := by
        obtain hname | hrest := List.mem_append.mp hname
        · obtain hhot | htyped := List.mem_append.mp hname
          · exact List.mem_append_left _ (List.mem_append_left _ hhot)
          · exact hcovered.lost name htyped
        · exact List.mem_append_right _ hrest
      rw [hperm.count_eq]
      exact List.count_eq_one_of_mem hcovered.nodup hplaced
    · intro range hrange row hrow hinside
      have habove := reservedRange_above hsorted hrange row hrow
      omega

/-- A request table with one typed slot. -/
def smallTable (hot : List Str) (slot : Nat) (h : hotStart .request ≤ slot ∧ slot ≤ hotEnd) :
    Table where
  direction := .request
  hot := hot
  typed n :=
    if n = slot then
      some ("content-length".toList, "optional uint64 content_length".toList)
    else none
  rest := []
  typed_slots := by
    intro n hn
    split at hn
    · rename_i heq
      rw [heq]
      exact h
    · cases hn

/-- A typed slot right after the one hot header. -/
theorem layout_complete_iff_adjacent :
    ∃ rows, layout (smallTable ["accept".toList] 7 (by decide)) = .ok rows ∧
      Complete (smallTable ["accept".toList] 7 (by decide)) rows := by
  have hcovered : Covered (smallTable ["accept".toList] 7 (by decide)) :=
    ⟨by decide, by decide⟩
  refine ⟨_, rfl, (layout_complete_iff rfl).mpr hcovered⟩

/-- With its slot further behind, `content-length` gets no row, and a hot header that is
named twice gets two. -/
theorem header_lost_or_doubled :
    (layout (smallTable ["accept".toList] 11 (by decide))).map (·.map Row.header) =
        .ok ["accept".toList] ∧
      "content-length".toList ∈ (smallTable ["accept".toList] 11 (by decide)).named ∧
      (layout (smallTable ["accept".toList, "accept".toList] 8 (by decide))).map
          (·.map Row.header) =
        .ok ["accept".toList, "accept".toList, "content-length".toList] := by
  refine ⟨by decide, by decide, by decide⟩

end Grpcgi.HeaderTable
