import Grpcgi.Search.Cut

/-!
# Marks in a text

Words that mark places are far enough apart when none of them begins inside another one. A
text is then a list of tokens, marks and other elements, in one way only, and a search for a
word in the text is a search for its mark among the tokens.
-/

namespace Search

/-- Words that do not overlap: none is the beginning of another, and what is behind the
first element of one is neither the beginning of a word nor begins with one. -/
structure Marks (α M : Type*) where
  word : M → List α
  word_ne_nil : ∀ m, word m ≠ []
  word_unique : ∀ {m m'}, word m <+: word m' → m = m'
  apart : ∀ {m m' z}, z ≠ [] → z <:+ word m → z ≠ word m → ¬ z <+: word m' ∧ ¬ word m' <+: z

inductive Token (α M : Type*) where
  | other (a : α)
  | mark (m : M)
  deriving DecidableEq

variable {α M : Type*}

def Token.text (w : Marks α M) : Token α M → List α
  | .other a => [a]
  | .mark m => w.word m

/-- The text of a list of tokens. -/
def render (w : Marks α M) (toks : List (Token α M)) : List α := toks.flatMap (Token.text w)

/-- The elements in front of the first mark. -/
def lead : List (Token α M) → List α
  | [] => []
  | .other a :: toks => a :: lead toks
  | .mark _ :: _ => []

/-- No word begins at an element that is not a mark. By the distance of the words it is
enough to look at the text up to the next mark. -/
def Canonical (w : Marks α M) : List (Token α M) → Prop
  | [] => True
  | .other a :: toks => (∀ m, ¬ w.word m <+: a :: lead toks) ∧ Canonical w toks
  | .mark _ :: toks => Canonical w toks

section Render

variable {w : Marks α M}

theorem render_append (toks toks' : List (Token α M)) :
    render w (toks ++ toks') = render w toks ++ render w toks' := List.flatMap_append

theorem render_cons (t : Token α M) (toks : List (Token α M)) :
    render w (t :: toks) = t.text w ++ render w toks := rfl

theorem render_singleton (t : Token α M) : render w [t] = t.text w := List.append_nil _

theorem render_other (s : List α) : render w (s.map Token.other) = s := by
  induction s with
  | nil => rfl
  | cons a s ih =>
      rw [List.map_cons, render_cons, ih]
      rfl

/-- The text is what is in front of the first mark, and the rest from this mark on. -/
theorem render_eq_lead (toks : List (Token α M)) :
    ∃ rest, render w toks = lead toks ++ rest ∧ (rest = [] ∨ ∃ m s, rest = w.word m ++ s) := by
  induction toks with
  | nil => exact ⟨[], rfl, .inl rfl⟩
  | cons t toks ih =>
      cases t with
      | other a =>
          obtain ⟨rest, hrender, hrest⟩ := ih
          refine ⟨rest, ?_, hrest⟩
          rw [render_cons, hrender]
          rfl
      | mark m => exact ⟨_, rfl, .inr ⟨m, render w toks, rfl⟩⟩

end Render

namespace Marks

variable (w : Marks α M)

/-- No word begins inside a word. -/
theorem not_prefix_inside {m m' : M} {z : List α} (hz : z ≠ []) (hsuffix : z <:+ w.word m)
    (hproper : z ≠ w.word m) (s : List α) : ¬ w.word m' <+: z ++ s := by
  intro hword
  obtain ⟨hbegin, hlong⟩ : ¬ z <+: w.word m' ∧ ¬ w.word m' <+: z := w.apart hz hsuffix hproper
  cases List.prefix_or_prefix_of_prefix hword (List.prefix_append z s) with
  | inl hshort => exact hlong hshort
  | inr hshort => exact hbegin hshort

/-- The word at a mark is the word of the mark. -/
theorem eq_of_prefix_append {m m' : M} {s : List α} (h : w.word m <+: w.word m' ++ s) :
    m = m' := by
  cases List.prefix_or_prefix_of_prefix h (List.prefix_append (w.word m') s) with
  | inl hshort => exact w.word_unique hshort
  | inr hshort => exact (w.word_unique hshort).symm

end Marks

variable {w : Marks α M}

/-- In a canonical list no word begins at an element, however far it reaches. -/
theorem Canonical.not_prefix {a : α} {toks : List (Token α M)}
    (h : Canonical w (.other a :: toks)) (m : M) : ¬ w.word m <+: a :: render w toks := by
  intro hword
  obtain ⟨rest, hrender, hrest⟩ := render_eq_lead (w := w) toks
  have htext : a :: render w toks = a :: lead toks ++ rest := by rw [hrender]; rfl
  rw [htext] at hword
  cases List.prefix_or_prefix_of_prefix hword (List.prefix_append (a :: lead toks) rest) with
  | inl hshort => exact h.1 m hshort
  | inr hlong =>
      obtain ⟨z, hz⟩ := hlong
      have hzrest : z <+: rest := by
        rw [← hz] at hword
        exact (List.prefix_append_right_inj _).mp hword
      have hproper : z ≠ w.word m := by
        intro heq
        have hlength := congrArg List.length hz
        rw [heq, List.length_append, List.length_cons] at hlength
        omega
      have hsuffix : z <:+ w.word m := ⟨_, hz⟩
      by_cases hnil : z = []
      · rw [hnil, List.append_nil] at hz
        exact h.1 m (hz ▸ List.prefix_rfl)
      · obtain rfl | ⟨m', s, rfl⟩ := hrest
        · exact hnil (List.prefix_nil.mp hzrest)
        · obtain ⟨hbegin, hinside⟩ : ¬ z <+: w.word m' ∧ ¬ w.word m' <+: z :=
            w.apart hnil hsuffix hproper
          cases List.prefix_or_prefix_of_prefix hzrest (List.prefix_append (w.word m') s) with
          | inl hshort => exact hbegin hshort
          | inr hshort => exact hinside hshort

theorem Canonical.of_append {toks toks' : List (Token α M)} (h : Canonical w (toks ++ toks')) :
    Canonical w toks' := by
  induction toks with
  | nil => exact h
  | cons t toks ih =>
      cases t with
      | other a => exact ih h.2
      | mark m => exact ih h

/-- Every text has a canonical list of tokens. -/
theorem exists_canonical (w : Marks α M) (s : List α) :
    ∃ toks, Canonical w toks ∧ render w toks = s := by
  induction hn : s.length using Nat.strongRecOn generalizing s with
  | ind n ih =>
      by_cases hword : ∃ m, w.word m <+: s
      · obtain ⟨m, rest, rfl⟩ := hword
        have hpos : 0 < (w.word m).length := List.length_pos_iff.mpr (w.word_ne_nil m)
        obtain ⟨toks, hcanonical, rfl⟩ := ih rest.length
          (by rw [← hn, List.length_append]; omega) rest rfl
        exact ⟨.mark m :: toks, hcanonical, rfl⟩
      · cases s with
        | nil => exact ⟨[], trivial, rfl⟩
        | cons a s =>
            obtain ⟨toks, hcanonical, rfl⟩ := ih s.length
              (by rw [← hn, List.length_cons]; omega) s rfl
            refine ⟨.other a :: toks, ⟨?_, hcanonical⟩, rfl⟩
            intro m hlead
            obtain ⟨rest, hrender, -⟩ := render_eq_lead (w := w) toks
            apply hword
            refine ⟨m, hlead.trans ?_⟩
            rw [hrender]
            exact List.prefix_append (a :: lead toks) rest

section Cut

variable [DecidableEq α] [DecidableEq M]

/-- A search for a word is a search for its mark. -/
theorem cut_render {toks : List (Token α M)} (h : Canonical w toks) (m : M) :
    cut (w.word m) (render w toks) =
      (cut [.mark m] toks).map (Prod.map (render w) (render w)) := by
  induction toks with
  | nil =>
      rw [cut_nil (List.cons_ne_nil _ _)]
      exact cut_nil (w.word_ne_nil m)
  | cons t toks ih =>
      cases t with
      | other a =>
          have hmiss : ¬ [Token.mark m] <+: .other a :: toks := by
            intro hbegin
            cases (List.cons_prefix_cons.mp hbegin).1
          show cut (w.word m) (a :: render w toks) = _
          rw [cut_cons (h.not_prefix m), cut_cons hmiss, ih h.2, Option.map_map, Option.map_map]
          rfl
      | mark m' =>
          by_cases hm : m = m'
          · subst hm
            have hhere : cut [Token.mark m] (.mark m :: toks) = some ([], toks) :=
              cut_start [Token.mark m] toks
            rw [hhere, render_cons]
            exact cut_start (w.word m) (render w toks)
          · have hmiss : ¬ [Token.mark m] <+: .mark m' :: toks := by
              intro hbegin
              exact hm (Token.mark.inj (List.cons_prefix_cons.mp hbegin).1)
            have hinside : ∀ z, z ≠ [] → z <:+ w.word m' →
                ¬ w.word m <+: z ++ render w toks := by
              intro z hz hsuffix
              by_cases hwhole : z = w.word m'
              · rw [hwhole]
                exact fun hbegin => hm (w.eq_of_prefix_append hbegin)
              · exact w.not_prefix_inside hz hsuffix hwhole _
            rw [render_cons, cut_cons hmiss, Option.map_map]
            show cut (w.word m) (w.word m' ++ render w toks) = _
            rw [cut_append hinside, ih h, Option.map_map]
            rfl

end Cut
end Search
