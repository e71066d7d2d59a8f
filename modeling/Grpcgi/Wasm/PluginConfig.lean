import Grpcgi.Data.Text
import Grpcgi.Search.Separated
import Mathlib.Data.List.Nodup
import Mathlib.Data.List.TakeWhile

/-!
# The plugin configuration

Both WASM filters take two strings from a JSON object without a JSON parser: they search for
the key in quotes, and read the string behind the next colon. A text without quotes or
backslashes in its strings is cut at its quotes into keys, values and what stands between
them, and the search finds the key wherever one of these pieces is equal to it.
-/

namespace Grpcgi.Wasm

open Search (cut marked)

/-- `trim_start`. -/
def trimStart (s : Str) : Str := s.dropWhile isWhiteSpace

/-- What both functions do behind the key. -/
def stringAfterColon (afterKey : Str) : Option Str :=
  match splitFirst ':' afterKey with
  | none => none
  | some (_, afterColon) =>
    match trimStart afterColon with
    | '"' :: valueStart => (splitFirst '"' valueStart).map Prod.fst
    | _ => none

/-- `extract_json_string` of the WebSocket filter. -/
def extractJsonString (json key : Str) : Option Str :=
  (cut ('"' :: (key ++ ['"'])) json).bind fun (_, afterKey) => stringAfterColon afterKey

/-- `json_str_field` of the HTTP filter, a copy of it. -/
def jsonStrField (json key : Str) : Option Str :=
  (cut ('"' :: (key ++ ['"'])) json).bind fun (_, rest) => stringAfterColon rest

/-! ## Flat objects -/

/-- JSON white space. -/
def isJsonSpace (c : Char) : Bool := c == ' ' || c == '\t' || c == '\n' || c == '\r'

/-- Without quotes and backslashes. -/
def IsPlain (s : Str) : Prop := ∀ c ∈ s, c ≠ '"' ∧ c ≠ '\\'

instance (s : Str) : Decidable (IsPlain s) := List.decidableBAll _ s

/-- A member of an object, with the white space around its tokens. -/
structure Member where
  lead : Str
  key : Str
  beforeColon : Str
  afterColon : Str
  value : Str
  trail : Str
  plain : IsPlain (key ++ value)
  blank : (lead ++ beforeColon ++ afterColon ++ trail).all isJsonSpace

namespace Member

/-- What stands between the key and the value. -/
def gap (m : Member) : Str := m.beforeColon ++ ':' :: m.afterColon

def text (m : Member) : Str :=
  m.lead ++ '"' :: (m.key ++ '"' :: (m.gap ++ '"' :: (m.value ++ '"' :: m.trail)))

end Member

/-- A flat object with string values. An object without members has some white space of its
own. -/
structure FlatObject where
  lead : Str
  members : List Member
  inside : Str
  trail : Str
  blank : (lead ++ inside ++ trail).all isJsonSpace
  keys_nodup : (members.map Member.key).Nodup

namespace FlatObject

def text (o : FlatObject) : Str :=
  o.lead ++ '{' :: ((if o.members = [] then o.inside
    else [','].intercalate (o.members.map Member.text)) ++ '}' :: o.trail)

/-- The object maps the key to the value. -/
def Maps (o : FlatObject) (key value : Str) : Prop :=
  ∃ m ∈ o.members, m.key = key ∧ m.value = value

end FlatObject

/-- The answer that a lookup should give. -/
def LooksUp (o : FlatObject) (key : Str) (answer : Option Str) : Prop :=
  (∀ value, answer = some value ↔ o.Maps key value) ∧
    ((∀ value, ¬ o.Maps key value) → answer = none)

/-- The pieces of the members between quotes: of each member the key, the gap and the value,
and then what stands between the members. -/
def pieces : List Member → List Str
  | [] => []
  | [m] => [m.key, m.gap, m.value]
  | m :: next :: ms =>
    m.key :: m.gap :: m.value :: (m.trail ++ ',' :: next.lead) :: pieces (next :: ms)

/-- What stands behind the last quote. -/
def FlatObject.ending (o : FlatObject) : Str :=
  (o.members.getLast?.elim [] Member.trail) ++ '}' :: o.trail

/-- The first colon in the pieces is followed by white space and the piece `value`, which is
between two quotes. -/
def FollowedBy (rest : List Str) (value : Str) : Prop :=
  ∃ before x blanks after, rest = before ++ (x ++ ':' :: blanks) :: value :: after ∧
    (∀ piece ∈ before, ':' ∉ piece) ∧ ':' ∉ x ∧ (∀ c ∈ blanks, isWhiteSpace c) ∧ after ≠ []

/-- The key is nowhere between quotes, or the first place where it is, is a key of the
object. -/
def NotMisled (o : FlatObject) (key : Str) : Prop :=
  ∀ before after, cut (key.splitOn '"') (pieces o.members) = some (before, after) →
    before.length % 4 = 0 ∧ '"' ∉ key

/-- In front of a member with this key, a member has it as its value, and `next` is the member
behind that one. -/
def ValueFirst (o : FlatObject) (key : Str) (next : Member) : Prop :=
  ∃ ms m ms', o.members = ms ++ m :: next :: ms' ∧ m.value = key ∧
    (∀ m' ∈ ms, m'.value ≠ key) ∧ (∀ m' ∈ ms ++ [m], m'.key ≠ key)

/-! ## The pieces of the text -/

theorem json_space_plain {c : Char} (h : isJsonSpace c) :
    c ≠ '"' ∧ c ≠ ':' ∧ isWhiteSpace c := by
  simp only [isJsonSpace, Bool.or_eq_true, beq_iff_eq] at h
  obtain ((rfl | rfl) | rfl) | rfl := h <;> decide

theorem not_mem_blank {s : Str} (h : s.all isJsonSpace) : '"' ∉ s ∧ ':' ∉ s :=
  ⟨fun hmem => (json_space_plain (List.all_eq_true.mp h _ hmem)).1 rfl,
    fun hmem => (json_space_plain (List.all_eq_true.mp h _ hmem)).2.1 rfl⟩

namespace Member

variable (m : Member)

theorem blanks : m.lead.all isJsonSpace ∧ m.beforeColon.all isJsonSpace ∧
    m.afterColon.all isJsonSpace ∧ m.trail.all isJsonSpace := by
  have h := m.blank
  simp only [List.all_append, Bool.and_eq_true] at h
  exact ⟨h.1.1.1, h.1.1.2, h.1.2, h.2⟩

theorem quote_not_mem_key : '"' ∉ m.key :=
  fun hmem => (m.plain _ (List.mem_append_left _ hmem)).1 rfl

theorem quote_not_mem_value : '"' ∉ m.value :=
  fun hmem => (m.plain _ (List.mem_append_right _ hmem)).1 rfl

theorem quote_not_mem_gap : '"' ∉ m.gap := by
  intro hmem
  simp only [gap, List.mem_append, List.mem_cons] at hmem
  obtain hbefore | hcolon | hafter := hmem
  · exact (not_mem_blank m.blanks.2.1).1 hbefore
  · exact absurd hcolon (by decide)
  · exact (not_mem_blank m.blanks.2.2.1).1 hafter

end Member

theorem quote_not_mem_pieces {ms : List Member} : ∀ piece ∈ pieces ms, '"' ∉ piece := by
  fun_induction pieces ms with
  | case1 => exact fun _ h => absurd h List.not_mem_nil
  | case2 m =>
      simp only [List.forall_mem_cons, List.not_mem_nil, false_implies, implies_true, and_true]
      exact ⟨m.quote_not_mem_key, m.quote_not_mem_gap, m.quote_not_mem_value⟩
  | case3 m next ms ih =>
      simp only [List.forall_mem_cons]
      refine ⟨m.quote_not_mem_key, m.quote_not_mem_gap, m.quote_not_mem_value, ?_, ih⟩
      intro hmem
      simp only [List.mem_append, List.mem_cons] at hmem
      obtain htrail | hcomma | hlead := hmem
      · exact (not_mem_blank m.blanks.2.2.2).1 htrail
      · exact absurd hcomma (by decide)
      · exact (not_mem_blank next.blanks.1).1 hlead

/-- The members are their pieces, each behind a quote. -/
theorem members_text (m : Member) (ms : List Member) (rest : Str) :
    [','].intercalate ((m :: ms).map Member.text) ++ rest =
      m.lead ++ marked '"' (pieces (m :: ms) ++
        [((m :: ms).getLast?.elim [] Member.trail) ++ rest]) := by
  induction ms generalizing m with
  | nil => simp [pieces, marked, Member.text]
  | cons next ms ih =>
      have hnext := ih next
      rw [List.map_cons] at hnext
      rw [List.map_cons, List.map_cons, List.intercalate_cons_cons, List.append_assoc,
        List.append_assoc, hnext]
      simp [pieces, marked, Member.text]

theorem quote_not_mem_ending (o : FlatObject) : '"' ∉ o.ending := by
  intro hmem
  have hblank := o.blank
  simp only [List.all_append, Bool.and_eq_true] at hblank
  rw [FlatObject.ending, List.mem_append, List.mem_cons] at hmem
  obtain hlast | hbrace | htrail := hmem
  · cases hmembers : o.members.getLast? with
    | none =>
        rw [hmembers] at hlast
        exact absurd hlast List.not_mem_nil
    | some m =>
        rw [hmembers] at hlast
        exact (not_mem_blank m.blanks.2.2.2).1 hlast
  · exact absurd hbrace (by decide)
  · exact (not_mem_blank hblank.2).1 htrail

/-- The text in front of the first quote, and the pieces. -/
theorem text_eq (o : FlatObject) (h : o.members ≠ []) :
    ∃ first, '"' ∉ first ∧ o.text = first ++ marked '"' (pieces o.members ++ [o.ending]) := by
  have hblank := o.blank
  simp only [List.all_append, Bool.and_eq_true] at hblank
  obtain ⟨m, ms, hmembers⟩ := List.exists_cons_of_ne_nil h
  refine ⟨o.lead ++ '{' :: m.lead, ?_, ?_⟩
  · intro hmem
    rw [List.mem_append, List.mem_cons] at hmem
    obtain hlead | hbrace | hlead := hmem
    · exact (not_mem_blank hblank.1.1).1 hlead
    · exact absurd hbrace (by decide)
    · exact (not_mem_blank m.blanks.1).1 hlead
  · rw [FlatObject.text, if_neg h, hmembers, members_text, FlatObject.ending, hmembers,
      List.append_assoc, List.cons_append]

/-! ## The answer -/

/-- The search for the key in quotes is the search for its pieces. -/
theorem cut_text (o : FlatObject) (key : Str) :
    ((cut ('"' :: (key ++ ['"'])) o.text).map Prod.snd) =
      (cut (key.splitOn '"') (pieces o.members)).map fun (_, after) =>
        ['"'].intercalate (after ++ [o.ending]) := by
  have hne := List.splitOn_ne_nil '"' key
  have hneedle : '"' :: (key ++ ['"']) = marked '"' (key.splitOn '"') ++ ['"'] := by
    rw [Search.marked_eq hne, List.intercalate_splitOn]
    rfl
  by_cases hmembers : o.members = []
  · have hblank := o.blank
    simp only [List.all_append, Bool.and_eq_true] at hblank
    have hfree : '"' ∉ o.text := by
      intro hmem
      rw [FlatObject.text, if_pos hmembers] at hmem
      simp only [List.mem_append, List.mem_cons] at hmem
      obtain hlead | hbrace | hinside | hbrace | htrail := hmem
      · exact (not_mem_blank hblank.1.1).1 hlead
      · exact absurd hbrace (by decide)
      · exact (not_mem_blank hblank.1.2).1 hinside
      · exact absurd hbrace (by decide)
      · exact (not_mem_blank hblank.2).1 htrail
    have hnone : cut ('"' :: (key ++ ['"'])) o.text = none := by
      rw [← List.append_nil o.text, Search.cut_append_of_not_mem hfree,
        Search.cut_nil (List.cons_ne_nil _ _)]
      rfl
    rw [hnone, hmembers, pieces, Search.cut_nil hne]
    rfl
  · obtain ⟨first, hfirst, htext⟩ := text_eq o hmembers
    rw [htext, hneedle, Search.cut_marked hne (fun r hr => Search.not_mem_of_mem_splitOn hr) hfirst
      quote_not_mem_pieces (quote_not_mem_ending o), Option.map_map]
    rfl

theorem stringAfterColon_skip {s : Str} (h : ':' ∉ s) (t : Str) :
    stringAfterColon (s ++ t) = stringAfterColon t := by
  rw [stringAfterColon, stringAfterColon, splitFirst_append_of_not_mem h]
  cases splitFirst ':' t <;> rfl

/-- Something else than white space behind the colon, or a quote. -/
theorem stringAfterColon_colon {x : Str} (hx : ':' ∉ x) {tail : Str} (htail : '"' ∉ tail)
    (t : Str) :
    stringAfterColon (x ++ ':' :: (tail ++ '"' :: t)) =
      if tail.all isWhiteSpace then (splitFirst '"' t).map Prod.fst else none := by
  rw [stringAfterColon, splitFirst_append hx]
  simp only [trimStart]
  by_cases hblank : tail.all isWhiteSpace
  · rw [if_pos hblank, List.dropWhile_append_of_pos (List.all_eq_true.mp hblank)]
    rfl
  · have hstop : tail.dropWhile isWhiteSpace ≠ [] :=
      fun hnil => hblank (List.all_eq_true.mpr (List.dropWhile_eq_nil_iff.mp hnil))
    obtain ⟨c, more, hdrop⟩ := List.exists_cons_of_ne_nil hstop
    have hmem : c ∈ tail :=
      (List.dropWhile_suffix isWhiteSpace).subset (hdrop ▸ List.mem_cons_self)
    rw [if_neg hblank, List.dropWhile_append, hdrop]
    split
    · rename_i heq
      exact absurd ((List.cons.inj heq).1 ▸ hmem) htail
    · rfl

theorem followedBy_skip {piece : Str} (h : ':' ∉ piece) (rest : List Str) (value : Str) :
    FollowedBy (piece :: rest) value ↔ FollowedBy rest value := by
  constructor
  · rintro ⟨before, x, blanks, after, heq, hbefore, hx, hblanks, hafter⟩
    cases before with
    | nil =>
        obtain ⟨rfl, -⟩ := List.cons.inj heq
        exact absurd (List.mem_append_right x List.mem_cons_self) h
    | cons first before =>
        obtain ⟨-, rfl⟩ := List.cons.inj heq
        exact ⟨before, x, blanks, after, rfl, (List.forall_mem_cons.mp hbefore).2, hx, hblanks,
          hafter⟩
  · rintro ⟨before, x, blanks, after, rfl, hbefore, hx, hblanks, hafter⟩
    exact ⟨piece :: before, x, blanks, after, rfl, List.forall_mem_cons.mpr ⟨h, hbefore⟩, hx,
      hblanks, hafter⟩

theorem followedBy_colon {x : Str} (hx : ':' ∉ x) (tail : Str) (rest : List Str) (value : Str) :
    FollowedBy ((x ++ ':' :: tail) :: rest) value ↔
      tail.all isWhiteSpace ∧ ∃ after, rest = value :: after ∧ after ≠ [] := by
  constructor
  · rintro ⟨before, y, blanks, after, heq, hbefore, hy, hblanks, hafter⟩
    cases before with
    | nil =>
        obtain ⟨hpiece, hrest⟩ := List.cons.inj heq
        have hsplit := congrArg (splitFirst ':') hpiece
        rw [splitFirst_append hx, splitFirst_append hy] at hsplit
        cases hsplit
        exact ⟨List.all_eq_true.mpr hblanks, after, hrest, hafter⟩
    | cons first before =>
        obtain ⟨hpiece, -⟩ := List.cons.inj heq
        exact absurd (hpiece ▸ List.mem_append_right x List.mem_cons_self)
          (hbefore first List.mem_cons_self)
  · rintro ⟨hblanks, after, rfl, hafter⟩
    exact ⟨[], x, tail, after, rfl, fun _ h => absurd h List.not_mem_nil, hx,
      List.all_eq_true.mp hblanks, hafter⟩

theorem stringAfterColon_unquoted {s : Str} (h : '"' ∉ s) : stringAfterColon s = none := by
  by_cases hcolon : ':' ∈ s
  · obtain ⟨x, tail, rfl, hx⟩ := List.eq_append_cons_of_mem hcolon
    rw [stringAfterColon, splitFirst_append hx]
    simp only
    split
    · rename_i valueStart heq
      have hdrop : tail.dropWhile isWhiteSpace = '"' :: valueStart := heq
      have hmem : '"' ∈ tail :=
        (List.dropWhile_suffix isWhiteSpace).subset (hdrop ▸ List.mem_cons_self)
      exact absurd (List.mem_append_right x (List.mem_cons_of_mem ':' hmem)) h
    · rfl
  · rw [stringAfterColon, splitFirst_eq_none hcolon]

/-- Up to the next quote stands the first piece, if another one follows it. -/
theorem upToQuote_iff {next : Str} (hnext : '"' ∉ next) (rest : List Str) (value : Str) :
    (splitFirst '"' (['"'].intercalate (next :: rest))).map Prod.fst = some value ↔
      ∃ after, next :: rest = value :: after ∧ after ≠ [] := by
  cases rest with
  | nil =>
      rw [List.intercalate_singleton, splitFirst_eq_none hnext]
      constructor
      · exact fun h => nomatch h
      · rintro ⟨after, heq, hafter⟩
        exact absurd (List.cons.inj heq).2.symm hafter
  | cons last rest =>
      rw [Search.intercalate_cons, Search.marked_eq (List.cons_ne_nil last rest),
        splitFirst_append hnext]
      constructor
      · intro h
        cases h
        exact ⟨last :: rest, rfl, List.cons_ne_nil _ _⟩
      · rintro ⟨after, heq, -⟩
        rw [(List.cons.inj heq).1]
        rfl

/-- The answer is the piece behind the first colon, if only white space is between them. -/
theorem stringAfterColon_iff {rest : List Str} (hfree : ∀ p ∈ rest, '"' ∉ p) (value : Str) :
    stringAfterColon (['"'].intercalate rest) = some value ↔ FollowedBy rest value := by
  induction rest with
  | nil =>
      constructor
      · exact fun h => nomatch h
      · rintro ⟨before, x, blanks, after, heq, -⟩
        exact absurd heq.symm (List.append_ne_nil_of_right_ne_nil _ (List.cons_ne_nil _ _))
  | cons piece rest ih =>
      obtain ⟨hpiece, hrest⟩ := List.forall_mem_cons.mp hfree
      by_cases hcolon : ':' ∈ piece
      · obtain ⟨x, tail, rfl, hx⟩ := List.eq_append_cons_of_mem hcolon
        have htail : '"' ∉ tail :=
          fun hmem => hpiece (List.mem_append_right x (List.mem_cons_of_mem ':' hmem))
        rw [followedBy_colon hx]
        cases rest with
        | nil =>
            rw [List.intercalate_singleton, stringAfterColon_unquoted hpiece]
            constructor
            · exact fun h => nomatch h
            · rintro ⟨-, after, heq, -⟩
              cases heq
        | cons next rest =>
            have hnext : '"' ∉ next := hrest next List.mem_cons_self
            rw [Search.intercalate_cons, Search.marked_eq (List.cons_ne_nil next rest),
              List.append_assoc, List.cons_append, stringAfterColon_colon hx htail]
            by_cases hblank : tail.all isWhiteSpace
            · rw [if_pos hblank, and_iff_right hblank]
              exact upToQuote_iff hnext rest value
            · rw [if_neg hblank]
              constructor
              · exact fun h => nomatch h
              · exact fun h => absurd h.1 hblank
      · cases rest with
        | nil =>
            have hnone := ih hrest
            rw [List.intercalate_singleton, stringAfterColon_unquoted hpiece,
              followedBy_skip hcolon, ← hnone]
            exact Iff.rfl
        | cons next rest =>
            rw [Search.intercalate_cons, Search.marked_eq (List.cons_ne_nil next rest),
              stringAfterColon_skip hcolon, followedBy_skip hcolon, ← ih hrest]
            have hquote : ':' ∉ ['"'] := by decide
            exact Eq.to_iff (congrArg (· = some value) (stringAfterColon_skip hquote _))

/-! ## The lookup -/

theorem key_mem_pieces {ms : List Member} {m : Member} (h : m ∈ ms) : m.key ∈ pieces ms := by
  fun_induction pieces ms with
  | case1 => exact absurd h List.not_mem_nil
  | case2 m' =>
      rw [List.mem_singleton.mp h]
      exact List.mem_cons_self
  | case3 m' next ms ih =>
      obtain rfl | h := List.mem_cons.mp h
      · exact List.mem_cons_self
      · simp only [List.mem_cons]
        exact .inr (.inr (.inr (.inr (ih h))))

/-- One of the three pieces of a member. -/
theorem member_split {m : Member} {ms : List Member} (hm : m ∈ ms) {more before after : List Str}
    {piece : Str} (hshort : before.length < 3)
    (h : m.key :: m.gap :: m.value :: more = before ++ piece :: after) :
    (before.length % 4 = 0 →
        ∃ m ∈ ms, m.key = piece ∧ ∃ more, after = m.gap :: m.value :: more) ∧
      (before.length % 4 ≠ 0 → ':' ∈ piece ∨ ',' ∈ piece ∨ ∃ m ∈ ms, m.value = piece) := by
  match before with
  | [] =>
      obtain ⟨hkey, hafter⟩ := List.cons.inj h
      exact ⟨fun _ => ⟨m, hm, hkey, _, hafter.symm⟩, fun hne => absurd rfl hne⟩
  | [_] =>
      simp only [List.cons_append, List.nil_append, List.cons.injEq] at h
      have hgap : ':' ∈ m.gap := List.mem_append_right _ List.mem_cons_self
      exact ⟨fun heq => absurd heq (Nat.succ_ne_zero _), fun _ => .inl (h.2.1 ▸ hgap)⟩
  | [_, _] =>
      simp only [List.cons_append, List.nil_append, List.cons.injEq] at h
      exact ⟨fun heq => absurd heq (Nat.succ_ne_zero _),
        fun _ => .inr (.inr ⟨m, hm, h.2.2.1⟩)⟩
  | _ :: _ :: _ :: before => exact absurd hshort (Nat.not_lt_of_le (Nat.le_add_left 3 _))

/-- Every fourth piece is a key, with its gap and its value behind it. Of the others, a piece
without a colon and a comma is a value. -/
theorem pieces_split {ms : List Member} {before after : List Str} {piece : Str}
    (h : pieces ms = before ++ piece :: after) :
    (before.length % 4 = 0 →
        ∃ m ∈ ms, m.key = piece ∧ ∃ more, after = m.gap :: m.value :: more) ∧
      (before.length % 4 ≠ 0 → ':' ∈ piece ∨ ',' ∈ piece ∨ ∃ m ∈ ms, m.value = piece) := by
  fun_induction pieces ms generalizing before with
  | case1 => exact absurd h.symm (List.append_ne_nil_of_right_ne_nil _ (List.cons_ne_nil _ _))
  | case2 m =>
      by_cases hshort : before.length < 3
      · exact member_split List.mem_cons_self hshort h
      · have hlength := congrArg List.length h
        simp only [List.length_append, List.length_cons, List.length_nil] at hlength
        omega
  | case3 m next ms ih =>
      by_cases hshort : before.length < 3
      · exact member_split List.mem_cons_self hshort h
      match before with
      | [] | [_] | [_, _] => exact absurd (by simp) hshort
      | [_, _, _] =>
          simp only [List.cons_append, List.nil_append, List.cons.injEq] at h
          have hcomma : ',' ∈ piece :=
            h.2.2.2.1 ▸ List.mem_append_right _ List.mem_cons_self
          exact ⟨fun heq => absurd heq (Nat.succ_ne_zero _), fun _ => .inr (.inl hcomma)⟩
      | _ :: _ :: _ :: _ :: before =>
          simp only [List.cons_append, List.cons.injEq] at h
          obtain ⟨hkey, hother⟩ := ih h.2.2.2.2
          have hlength (a b c d : Str) : (a :: b :: c :: d :: before).length % 4 =
              before.length % 4 := Nat.add_mod_right before.length 4
          rw [hlength]
          constructor
          · intro heq
            obtain ⟨m', hmem, hfound⟩ := hkey heq
            exact ⟨m', List.mem_cons_of_mem m hmem, hfound⟩
          · intro hne
            obtain hcolon | hcomma | ⟨m', hmem, hvalue⟩ := hother hne
            · exact .inl hcolon
            · exact .inr (.inl hcomma)
            · exact .inr (.inr ⟨m', List.mem_cons_of_mem m hmem, hvalue⟩)

/-- Behind a key stands its value. -/
theorem followedBy_member (m : Member) (more : List Str) (ending value : Str) :
    FollowedBy (m.gap :: m.value :: more ++ [ending]) value ↔ m.value = value := by
  have hcolon : ':' ∉ m.beforeColon := (not_mem_blank m.blanks.2.1).2
  have hblank : m.afterColon.all isWhiteSpace := by
    rw [List.all_eq_true]
    exact fun c hc => (json_space_plain (List.all_eq_true.mp m.blanks.2.2.1 c hc)).2.2
  rw [List.cons_append, Member.gap, followedBy_colon hcolon, and_iff_right hblank]
  constructor
  · rintro ⟨after, heq, -⟩
    exact (List.cons.inj heq).1
  · rintro rfl
    exact ⟨_, rfl, List.append_ne_nil_of_right_ne_nil _ (List.cons_ne_nil _ _)⟩

theorem maps_key_iff {o : FlatObject} {m : Member} (hm : m ∈ o.members) (value : Str) :
    o.Maps m.key value ↔ m.value = value := by
  constructor
  · rintro ⟨m', hm', hkey, hvalue⟩
    have hsame : m' = m := List.inj_on_of_nodup_map o.keys_nodup hm' hm hkey
    rw [← hsame]
    exact hvalue
  · exact fun hvalue => ⟨m, hm, rfl, hvalue⟩

theorem splitOn_of_maps {o : FlatObject} {key value : Str} (h : o.Maps key value) :
    key.splitOn '"' = [key] ∧ key ∈ pieces o.members := by
  obtain ⟨m, hm, rfl, -⟩ := h
  exact ⟨List.splitOn_eq_singleton m.quote_not_mem_key, key_mem_pieces hm⟩

theorem extractJsonString_eq (o : FlatObject) (key : Str) :
    extractJsonString o.text key =
      (cut (key.splitOn '"') (pieces o.members)).bind fun (_, after) =>
        stringAfterColon (['"'].intercalate (after ++ [o.ending])) := by
  have hbind : extractJsonString o.text key =
      ((cut ('"' :: (key ++ ['"'])) o.text).map Prod.snd).bind stringAfterColon := by
    rw [Option.bind_map]
    rfl
  rw [hbind, cut_text, Option.bind_map]
  rfl

/-- Without a hit the object does not have the key. -/
theorem not_maps_of_cut {o : FlatObject} {key : Str}
    (h : cut (key.splitOn '"') (pieces o.members) = none) (value : Str) : ¬ o.Maps key value := by
  intro hmaps
  obtain ⟨hsplit, hmem⟩ := splitOn_of_maps hmaps
  obtain ⟨before, after, heq, hfirst⟩ := List.eq_append_cons_of_mem hmem
  rw [hsplit, heq, Search.cut_singleton hfirst] at h
  cases h

/-- Where the first hit is a key, what follows it is right. -/
theorem followedBy_iff_maps {o : FlatObject} {key : Str} {before after : List Str}
    (h : cut (key.splitOn '"') (pieces o.members) = some (before, after))
    (hkey : before.length % 4 = 0) (hplain : '"' ∉ key) (value : Str) :
    FollowedBy (after ++ [o.ending]) value ↔ o.Maps key value := by
  rw [List.splitOn_eq_singleton hplain] at h
  have hpieces := Search.eq_append_of_cut h
  rw [List.append_assoc] at hpieces
  obtain ⟨m, hm, rfl, more, rfl⟩ := (pieces_split hpieces).1 hkey
  rw [followedBy_member, maps_key_iff hm]

theorem looksUp_iff {o : FlatObject} {key : Str} {answer : Option Str} :
    LooksUp o key answer ↔ ∀ value, answer = some value ↔ o.Maps key value := by
  refine ⟨And.left, fun h => ⟨h, fun hnone => ?_⟩⟩
  cases answer with
  | none => rfl
  | some value => exact absurd ((h value).mp rfl) (hnone value)

/-- The answer is read from the pieces behind the first hit. -/
theorem extractJsonString_iff {o : FlatObject} {key : Str} {before after : List Str}
    (h : cut (key.splitOn '"') (pieces o.members) = some (before, after)) (value : Str) :
    extractJsonString o.text key = some value ↔ FollowedBy (after ++ [o.ending]) value := by
  have hfree : ∀ p ∈ after ++ [o.ending], '"' ∉ p := by
    intro p hp
    obtain hp | hp := List.mem_append.mp hp
    · have hpieces := Search.eq_append_of_cut h
      exact quote_not_mem_pieces p (hpieces ▸ List.mem_append_right _ hp)
    · rw [List.mem_singleton.mp hp]
      exact quote_not_mem_ending o
  rw [extractJsonString_eq, h]
  exact stringAfterColon_iff hfree value

theorem extractJsonString_looksUp {o : FlatObject} {key : Str} (h : NotMisled o key) :
    LooksUp o key (extractJsonString o.text key) := by
  rw [looksUp_iff]
  intro value
  cases hcut : cut (key.splitOn '"') (pieces o.members) with
  | none =>
      rw [extractJsonString_eq, hcut]
      exact iff_of_false (fun h => nomatch h) (not_maps_of_cut hcut value)
  | some result =>
      obtain ⟨before, after⟩ := result
      obtain ⟨hkey, hplain⟩ := h before after hcut
      exact (extractJsonString_iff hcut value).trans (followedBy_iff_maps hcut hkey hplain value)

/-- A key that is no value, and has no quote, colon or comma in it, misleads nobody. -/
theorem notMisled_of_value {o : FlatObject} {key : Str} (hvalue : ∀ m ∈ o.members, m.value ≠ key)
    (hplain : '"' ∉ key ∧ ':' ∉ key ∧ ',' ∉ key) : NotMisled o key := by
  intro before after hcut
  rw [List.splitOn_eq_singleton hplain.1] at hcut
  have hpieces := Search.eq_append_of_cut hcut
  rw [List.append_assoc] at hpieces
  by_cases hkey : before.length % 4 = 0
  · exact ⟨hkey, hplain.1⟩
  · obtain hcolon | hcomma | ⟨m, hm, heq⟩ := (pieces_split hpieces).2 hkey
    · exact absurd hcolon hplain.2.1
    · exact absurd hcomma hplain.2.2
    · exact absurd heq (hvalue m hm)

/-- In front of the first value that is the key there are other pieces, and behind it the
separator and the pieces of the next member. -/
theorem pieces_valueFirst {key : Str} (hcolon : ':' ∉ key) (hcomma : ',' ∉ key) {m : Member}
    (hvalue : m.value = key) (next : Member) (ms' : List Member) {ms : List Member}
    (hvalues : ∀ m' ∈ ms, m'.value ≠ key) (hkeys : ∀ m' ∈ ms ++ [m], m'.key ≠ key) :
    ∃ before, key ∉ before ∧ pieces (ms ++ m :: next :: ms') =
      before ++ key :: (m.trail ++ ',' :: next.lead) :: pieces (next :: ms') := by
  have hgap (m : Member) : key ≠ m.gap := by
    rintro rfl
    exact hcolon (List.mem_append_right _ List.mem_cons_self)
  induction ms with
  | nil =>
      refine ⟨[m.key, m.gap], ?_, by rw [List.nil_append, pieces, hvalue]; rfl⟩
      simp only [List.mem_cons, List.not_mem_nil, or_false, not_or]
      exact ⟨(hkeys m List.mem_cons_self).symm, hgap m⟩
  | cons first ms ih =>
      obtain ⟨hfirst, hvalues⟩ := List.forall_mem_cons.mp hvalues
      obtain ⟨hkey, hkeys⟩ := List.forall_mem_cons.mp hkeys
      obtain ⟨before, hbefore, hpieces⟩ := ih hvalues hkeys
      obtain ⟨second, rest, hrest⟩ : ∃ second rest, ms ++ m :: next :: ms' = second :: rest :=
        List.exists_cons_of_ne_nil (List.append_ne_nil_of_right_ne_nil _ (List.cons_ne_nil _ _))
      refine ⟨first.key :: first.gap :: first.value :: (first.trail ++ ',' :: second.lead) ::
        before, ?_, ?_⟩
      · simp only [List.mem_cons, not_or]
        refine ⟨hkey.symm, hgap first, hfirst.symm, ?_, hbefore⟩
        rintro rfl
        exact hcomma (List.mem_append_right _ List.mem_cons_self)
      · rw [List.cons_append, hrest, pieces, ← hrest, hpieces]
        rfl

theorem pieces_cons (m : Member) (ms : List Member) :
    ∃ more, pieces (m :: ms) = m.key :: m.gap :: m.value :: more := by
  cases ms <;> exact ⟨_, rfl⟩

/-- Then the answer is the value of the next member. -/
theorem extractJsonString_misled {o : FlatObject} {key : Str} {next : Member}
    (hplain : '"' ∉ key ∧ ':' ∉ key ∧ ',' ∉ key) (hfirst : ValueFirst o key next)
    (hnext : ':' ∉ next.key) : extractJsonString o.text key = some next.value := by
  obtain ⟨ms, m, ms', hmembers, hvalue, hvalues, hkeys⟩ := hfirst
  obtain ⟨before, hbefore, hpieces⟩ :=
    pieces_valueFirst hplain.2.1 hplain.2.2 hvalue next ms' hvalues hkeys
  have hcut : cut (key.splitOn '"') (pieces o.members) =
      some (before, (m.trail ++ ',' :: next.lead) :: pieces (next :: ms')) := by
    rw [List.splitOn_eq_singleton hplain.1, hmembers, hpieces, Search.cut_singleton hbefore]
  have hseparator : ':' ∉ m.trail ++ ',' :: next.lead := by
    rw [List.mem_append, List.mem_cons, not_or, not_or]
    exact ⟨(not_mem_blank m.blanks.2.2.2).2, by decide, (not_mem_blank next.blanks.1).2⟩
  obtain ⟨more, hmore⟩ := pieces_cons next ms'
  rw [extractJsonString_iff hcut, List.cons_append, followedBy_skip hseparator, hmore,
    List.cons_append, followedBy_skip hnext]
  exact (followedBy_member next more o.ending next.value).mpr rfl

/-- Both functions look up the key if no other piece misleads them. Where the value of a member
does, both answer with the value of the next one, whatever its key is. -/
theorem pluginConfig_lookup (o : FlatObject) (key : Str) :
    (NotMisled o key →
      LooksUp o key (extractJsonString o.text key) ∧ LooksUp o key (jsonStrField o.text key)) ∧
    (∀ next, '"' ∉ key ∧ ':' ∉ key ∧ ',' ∉ key → ValueFirst o key next → ':' ∉ next.key →
      extractJsonString o.text key = some next.value ∧
      jsonStrField o.text key = some next.value) := by
  have hsame : jsonStrField o.text key = extractJsonString o.text key := rfl
  rw [hsame, and_self]
  refine ⟨extractJsonString_looksUp, fun next hplain hfirst hnext => ?_⟩
  have hanswer := extractJsonString_misled hplain hfirst hnext
  exact ⟨hanswer, hanswer⟩

/-- An object of two members without white space. -/
def twoMembers (value : Str) (h : IsPlain ("a".toList ++ value)) : FlatObject where
  lead := []
  members := [⟨[], "a".toList, [], [], value, [], h, rfl⟩,
    ⟨[], "b".toList, [], [], "v".toList, [], by decide, rfl⟩]
  inside := []
  trail := []
  blank := rfl
  keys_nodup := by
    show ["a".toList, "b".toList].Nodup
    decide

theorem twoMembers_not_maps {key value : Str} {h : IsPlain ("a".toList ++ value)}
    (ha : "a".toList ≠ key) (hb : "b".toList ≠ key) (v : Str) :
    ¬ (twoMembers value h).Maps key v := by
  rintro ⟨m, hm, hkey, -⟩
  obtain rfl | hm := List.mem_cons.mp hm
  · exact ha hkey
  · rw [List.mem_singleton.mp hm] at hkey
    exact hb hkey

/-- Of two members, the key `b` is found, and the value `k` of the first one is taken for a
key. -/
theorem pluginConfig_lookup_two :
    LooksUp (twoMembers "k".toList (by decide)) "b".toList
      (extractJsonString (twoMembers "k".toList (by decide)).text "b".toList) ∧
    jsonStrField (twoMembers "k".toList (by decide)).text "k".toList = some "v".toList :=
  have hplain : IsPlain ("a".toList ++ "k".toList) := by decide
  ⟨((pluginConfig_lookup (twoMembers "k".toList hplain) "b".toList).1
      (notMisled_of_value (by simp [twoMembers]) (by decide))).1,
    ((pluginConfig_lookup (twoMembers "k".toList hplain) "k".toList).2
      ⟨[], "b".toList, [], [], "v".toList, [], by decide, rfl⟩ (by decide)
      ⟨[], ⟨[], "a".toList, [], [], "k".toList, [], hplain, rfl⟩, [], rfl, rfl, by simp,
        by simp⟩ (by decide)).2⟩

/-- No member has the key `k` or the key `:`. One is found as the value of the first member,
the other one between the key and the value. -/
theorem pluginConfig_misled :
    (extractJsonString (twoMembers "k".toList (by decide)).text "k".toList = some "v".toList ∧
      ∀ v, ¬ (twoMembers "k".toList (by decide)).Maps "k".toList v) ∧
    (jsonStrField (twoMembers "c".toList (by decide)).text ":".toList = some "v".toList ∧
      ∀ v, ¬ (twoMembers "c".toList (by decide)).Maps ":".toList v) :=
  ⟨⟨by decide, twoMembers_not_maps (by decide) (by decide)⟩,
    by decide, twoMembers_not_maps (by decide) (by decide)⟩

end Grpcgi.Wasm
