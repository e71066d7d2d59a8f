import Grpcgi.Search.Regions

/-!
# Regions of several kinds

A text whose regions of different kinds do not overlap is a list of pieces: regions, and
tokens that are in none. What is put into the regions of one kind leaves the regions of the
other kinds where they are, so that the order of the kinds does not matter.
-/

namespace Search

/-- The two marks of a kind of regions. -/
inductive Mark (D : Type*) where
  | opening (d : D)
  | closing (d : D)
  deriving DecidableEq

inductive Piece (α D : Type*) where
  | plain (t : Token α (Mark D))
  | region (d : D) (inside : List (Token α (Mark D)))

variable {α D : Type*}

def Piece.tokens : Piece α D → List (Token α (Mark D))
  | .plain t => [t]
  | .region d inside => .mark (.opening d) :: inside ++ [.mark (.closing d)]

def flatten (ps : List (Piece α D)) : List (Token α (Mark D)) := ps.flatMap Piece.tokens

/-- The pieces are what a search for the regions of each kind finds: a region begins at
every mark that one can begin at, and ends at the first mark that can end it. -/
inductive Parsed : List (Piece α D) → Prop where
  | nil : Parsed []
  | plain {t ps} (rest : Parsed ps)
      (unmatched : ∀ d, t = .mark (.opening d) → .mark (.closing d) ∉ flatten ps) :
      Parsed (.plain t :: ps)
  | region {d inside ps} (rest : Parsed ps) (closed : .mark (.closing d) ∉ inside)
      (others : ∀ d', d' ≠ d → ∀ u v, inside = u ++ .mark (.opening d') :: v →
        .mark (.closing d') ∉ v ++ .mark (.closing d) :: flatten ps) :
      Parsed (.region d inside :: ps)

theorem flatten_cons (p : Piece α D) (ps : List (Piece α D)) :
    flatten (p :: ps) = p.tokens ++ flatten ps := rfl

/-! ## The regions of one kind -/

/-- Something in front of the first region, or of the rest if there is none. -/
def push {β : Type*} (x : List β) : List (List β × List β) × List β →
    List (List β × List β) × List β
  | ([], tail) => ([], x ++ tail)
  | ((before, inside) :: parts, tail) => ((x ++ before, inside) :: parts, tail)

theorem push_map {β γ : Type*} (f : List β → List γ) (hf : ∀ x y, f (x ++ y) = f x ++ f y)
    (x : List β) (found : List (List β × List β) × List β) :
    (push x found).1.map (Prod.map f f) =
      (push (f x) (found.1.map (Prod.map f f), f found.2)).1 := by
  obtain ⟨_ | ⟨⟨before, inside⟩, parts⟩, tail⟩ := found
  · rfl
  · simp only [push, List.map_cons, Prod.map, hf]

theorem spansFrom_push (b e : List α) (start : Nat) (x : List α)
    (found : List (List α × List α) × List α) :
    spansFrom b e start (push x found).1 = spansFrom b e (start + x.length) found.1 := by
  obtain ⟨_ | ⟨⟨before, inside⟩, parts⟩, tail⟩ := found
  · rfl
  · simp only [push, spansFrom, List.length_append, Nat.add_assoc]

section Tokens

variable {β : Type*} [DecidableEq β] {b e : β}

/-- No region begins in `x`. -/
theorem regions_push {x s : List β} (h : ∀ u v, x = u ++ b :: v → e ∉ v ++ s) :
    regions [b] [e] (x ++ s) = push x (regions [b] [e] s) := by
  have hne : [b] ≠ [] := List.cons_ne_nil b []
  by_cases hb : b ∈ x
  · obtain ⟨u, v, rfl, hu⟩ := List.eq_append_cons_of_mem hb
    have hclose := h u v rfl
    have hshort : e ∉ s := fun hmem => hclose (List.mem_append_right v hmem)
    have hlong : region [b] [e] (u ++ b :: v ++ s) = none := by
      rw [List.append_assoc, List.cons_append, region, cut_singleton hu]
      simp only [cut_singleton_none hclose, Option.map_none]
    have hrest : region [b] [e] s = none := by
      rw [region]
      cases hcut : cut [b] s with
      | none => rfl
      | some found =>
          obtain ⟨before, opened⟩ := found
          have hopened : e ∉ opened := by
            rw [eq_append_of_cut hcut] at hshort
            exact fun hmem => hshort (List.mem_append_right _ hmem)
          simp only [cut_singleton_none hopened, Option.map_none]
    rw [regions_none hne hlong, regions_none hne hrest]
    rfl
  · have hregion : region [b] [e] (x ++ s) =
        (region [b] [e] s).map (Prod.map (x ++ ·) id) := by
      rw [region, region, cut_append_of_not_mem hb]
      cases hcut : cut [b] s with
      | none => rfl
      | some found =>
          simp only [Option.map_some, Prod.map, Option.map_map]
          rfl
    cases hrest : region [b] [e] s with
    | none =>
        rw [hrest] at hregion
        rw [regions_none hne hregion, regions_none hne hrest]
        rfl
    | some found =>
        obtain ⟨before, inside, after⟩ := found
        rw [hrest] at hregion
        rw [regions_some hne hregion, regions_some hne hrest]
        rfl

/-- A region begins here. -/
theorem regions_region {inside s : List β} (h : e ∉ inside) :
    regions [b] [e] (b :: inside ++ e :: s) =
      (([], inside) :: (regions [b] [e] s).1, (regions [b] [e] s).2) := by
  have hregion : region [b] [e] (b :: inside ++ e :: s) = some ([], inside, s) := by
    have hopen : cut [b] (b :: inside ++ e :: s) = some ([], inside ++ e :: s) :=
      cut_start [b] (inside ++ e :: s)
    rw [region, hopen]
    simp only [cut_singleton h, Option.map_some]
  exact regions_some (List.cons_ne_nil b []) hregion

end Tokens

/-- No region of another kind begins inside a region, nor at one of its marks. -/
theorem region_passes {d d' : D} (hne : d' ≠ d) {inside rest : List (Token α (Mark D))}
    (others : ∀ u v, inside = u ++ .mark (.opening d') :: v →
      .mark (.closing d') ∉ v ++ .mark (.closing d) :: rest) :
    ∀ u v, (Piece.region d inside).tokens = u ++ .mark (.opening d') :: v →
      .mark (.closing d') ∉ v ++ rest := by
  intro u v heq
  cases u with
  | nil =>
      have hmark := (List.cons.inj heq).1
      cases hmark
      exact absurd rfl hne
  | cons t u =>
      have hinside := (List.cons.inj heq).2
      -- the mark is not the closing one at the end
      cases v.eq_nil_or_concat with
      | inl hnil =>
          rw [hnil] at hinside
          have hlast := (List.append_inj' hinside rfl).2
          cases hlast
      | inr hconcat =>
          obtain ⟨v', last, rfl⟩ := hconcat
          rw [List.concat_eq_append] at hinside ⊢
          have hsplit : inside ++ [.mark (.closing d)] =
              (u ++ .mark (.opening d') :: v') ++ [last] := by
            rw [List.append_assoc]
            exact hinside
          obtain ⟨hbody, hlast⟩ := List.append_inj' hsplit rfl
          cases hlast
          have hclose := others u v' hbody
          rw [List.append_assoc]
          exact hclose

/-- No region begins at a token that has no end behind it. -/
theorem plain_passes {d : D} {t : Token α (Mark D)} {rest : List (Token α (Mark D))}
    (unmatched : t = .mark (.opening d) → .mark (.closing d) ∉ rest) :
    ∀ u v, [t] = u ++ .mark (.opening d) :: v → .mark (.closing d) ∉ v ++ rest := by
  intro u v heq
  cases u with
  | nil =>
      obtain ⟨ht, hv⟩ := List.cons.inj heq
      rw [← hv]
      exact unmatched ht
  | cons t' u =>
      have hnil := (List.cons.inj heq).2
      exact absurd hnil.symm (List.append_ne_nil_of_right_ne_nil _ (List.cons_ne_nil _ _))

section Kinds

variable [DecidableEq α] [DecidableEq D]

/-- The regions of one kind among the pieces. -/
def regionsOf (d : D) : List (Piece α D) →
    List (List (Token α (Mark D)) × List (Token α (Mark D))) × List (Token α (Mark D))
  | [] => ([], [])
  | .plain t :: ps => push [t] (regionsOf d ps)
  | .region d' inside :: ps =>
    if d' = d then (([], inside) :: (regionsOf d ps).1, (regionsOf d ps).2)
    else push (Piece.region d' inside).tokens (regionsOf d ps)

theorem regions_flatten {ps : List (Piece α D)} (h : Parsed ps) (d : D) :
    regions [.mark (.opening d)] [.mark (.closing d)] (flatten ps) = regionsOf d ps := by
  induction h with
  | nil => rfl
  | @plain t ps rest unmatched ih =>
      rw [flatten_cons, regionsOf, ← ih]
      exact regions_push (x := [t]) (plain_passes (unmatched d))
  | @region d' inside ps rest closed others ih =>
      rw [flatten_cons, regionsOf, ← ih]
      split
      · rename_i heq
        subst heq
        have hlist : (Piece.region d' inside).tokens ++ flatten ps =
            .mark (.opening d') :: inside ++ .mark (.closing d') :: flatten ps := by
          simp [Piece.tokens]
        rw [hlist]
        exact regions_region closed
      · rename_i hne
        exact regions_push (region_passes (Ne.symm hne) (others d (Ne.symm hne)))

/-! ## The pieces of a text -/

variable (w : Marks α (Mark D))

/-- The places of the regions of one kind in the text of the tokens. -/
def tokenSpans (d : D) (start : Nat) (toks : List (Token α (Mark D))) : List (Nat × Nat) :=
  spansFrom (w.word (.opening d)) (w.word (.closing d)) start
    ((regions [.mark (.opening d)] [.mark (.closing d)] toks).1.map
      (Prod.map (render w) (render w)))

variable {w}

theorem tokenSpans_push {d : D} {x s : List (Token α (Mark D))} (start : Nat)
    (h : ∀ u v, x = u ++ .mark (.opening d) :: v → .mark (.closing d) ∉ v ++ s) :
    tokenSpans w d start (x ++ s) = tokenSpans w d (start + (render w x).length) s := by
  rw [tokenSpans, tokenSpans, regions_push h]
  rw [push_map (render w) render_append, spansFrom_push]

theorem tokenSpans_region {d : D} {inside : List (Token α (Mark D))} (start : Nat)
    (h : .mark (.closing d) ∉ inside) (s : List (Token α (Mark D))) :
    tokenSpans w d start (.mark (.opening d) :: inside ++ .mark (.closing d) :: s) =
      (start, start + (render w (Piece.region d inside).tokens).length) ::
        tokenSpans w d (start + (render w (Piece.region d inside).tokens).length) s := by
  have htext : render w (Piece.region d inside).tokens =
      w.word (.opening d) ++ render w inside ++ w.word (.closing d) := by
    rw [Piece.tokens, render_append, render_cons, render_singleton]
    rfl
  rw [tokenSpans, regions_region h, htext]
  rfl

/-- The first mark that can begin a region does so if one behind it can end it. -/
theorem tokenSpans_mark {d : D} {x y : List (Token α (Mark D))} (start : Nat)
    (hx : .mark (.opening d) ∉ x) (hy : .mark (.closing d) ∈ y) :
    ∃ stop more, tokenSpans w d start (x ++ .mark (.opening d) :: y) =
      (start + (render w x).length, stop) :: more ∧ start + (render w x).length < stop := by
  obtain ⟨inside, after, rfl, hinside⟩ := List.eq_append_cons_of_mem hy
  have hpass : ∀ u v, x = u ++ .mark (.opening d) :: v →
      .mark (.closing d) ∉ v ++ .mark (.opening d) :: (inside ++ .mark (.closing d) :: after) :=
    fun u v heq => absurd (heq ▸ List.mem_append_right u List.mem_cons_self) hx
  rw [tokenSpans_push start hpass, ← List.cons_append, tokenSpans_region _ hinside]
  refine ⟨_, _, rfl, ?_⟩
  have hpos := List.length_pos_iff.mpr (w.word_ne_nil (.opening d))
  rw [Piece.tokens, render_append, render_cons, List.length_append, List.length_append]
  show _ < _ + ((w.word (.opening d)).length + _ + _)
  omega

/-- Any other mark is behind the beginning of that region. -/
theorem tokenSpans_first {d : D} (x : List (Token α (Mark D))) {y : List (Token α (Mark D))}
    (start : Nat) (hy : .mark (.closing d) ∈ y) :
    ∃ first stop more, tokenSpans w d start (x ++ .mark (.opening d) :: y) =
      (first, stop) :: more ∧ start ≤ first ∧ first ≤ start + (render w x).length ∧
        first < stop := by
  by_cases hx : .mark (.opening d) ∈ x
  · obtain ⟨front, x', rfl, hfront⟩ := List.eq_append_cons_of_mem hx
    have hy' : .mark (.closing d) ∈ x' ++ .mark (.opening d) :: y :=
      List.mem_append_right x' (List.mem_cons_of_mem _ hy)
    obtain ⟨stop, more, hspans, hstop⟩ := tokenSpans_mark (w := w) start hfront hy'
    rw [List.append_assoc, List.cons_append, render_append, List.length_append]
    exact ⟨_, stop, more, hspans, Nat.le_add_right _ _, by omega, hstop⟩
  · obtain ⟨stop, more, hspans, hstop⟩ := tokenSpans_mark (w := w) start hx hy
    exact ⟨_, stop, more, hspans, Nat.le_add_right _ _, Nat.le_refl _, hstop⟩

/-- Regions of different kinds do not overlap. -/
def Disjoint (w : Marks α (Mark D)) (start : Nat) (toks : List (Token α (Mark D))) : Prop :=
  ∀ d d', d ≠ d' → ∀ x ∈ tokenSpans w d start toks, ∀ y ∈ tokenSpans w d' start toks,
    x.2 ≤ y.1 ∨ y.2 ≤ x.1

/-- A region of another kind does not begin inside a region and end at or behind its end. -/
theorem Disjoint.others {start : Nat} {d : D} {inside after : List (Token α (Mark D))}
    (h : Disjoint w start (.mark (.opening d) :: inside ++ .mark (.closing d) :: after))
    (hinside : .mark (.closing d) ∉ inside) :
    ∀ d', d' ≠ d → ∀ u v, inside = u ++ .mark (.opening d') :: v →
      .mark (.closing d') ∉ v ++ .mark (.closing d) :: after := by
  intro d' hne u v heq hmem
  -- the first region of the other kind begins at this mark or in front of it
  obtain ⟨first, stop, more, hspans, hlow, hhigh, hstop⟩ :=
    tokenSpans_first (w := w) (.mark (.opening d) :: u) start hmem
  have hlist : (.mark (.opening d) :: u) ++ .mark (.opening d') ::
      (v ++ .mark (.closing d) :: after) =
        .mark (.opening d) :: inside ++ .mark (.closing d) :: after := by
    rw [heq]
    simp
  rw [hlist] at hspans
  have hthis := tokenSpans_region (w := w) start hinside after
  have hover := h d d' (Ne.symm hne)
  rw [hthis, hspans] at hover
  have hpos := List.length_pos_iff.mpr (w.word_ne_nil (.opening d'))
  have hlength : (render w (.mark (.opening d) :: u)).length <
      (render w (Piece.region d inside).tokens).length := by
    rw [heq]
    simp only [Piece.tokens, render_append, render_cons, List.length_append,
      List.cons_append, Token.text]
    omega
  cases hover _ List.mem_cons_self _ List.mem_cons_self with
  | inl hbefore =>
      simp only at hbefore
      omega
  | inr hafter =>
      simp only at hafter
      omega

/-- Behind a region the others are still disjoint. -/
theorem Disjoint.behind_region {start : Nat} {d : D} {inside after : List (Token α (Mark D))}
    (h : Disjoint w start (.mark (.opening d) :: inside ++ .mark (.closing d) :: after))
    (hinside : .mark (.closing d) ∉ inside) :
    Disjoint w (start + (render w (Piece.region d inside).tokens).length) after := by
  have hspans (d' : D) : ∀ x ∈ tokenSpans w d'
      (start + (render w (Piece.region d inside).tokens).length) after,
      x ∈ tokenSpans w d' start
        (.mark (.opening d) :: inside ++ .mark (.closing d) :: after) := by
    intro x hx
    by_cases heq : d' = d
    · subst heq
      rw [tokenSpans_region start hinside]
      exact List.mem_cons_of_mem _ hx
    · have hpass := tokenSpans_push (w := w) start
        (region_passes heq (h.others hinside d' heq))
      have hlist : (Piece.region d inside).tokens ++ after =
          .mark (.opening d) :: inside ++ .mark (.closing d) :: after := by
        simp [Piece.tokens]
      rw [← hlist, hpass]
      exact hx
  exact fun d₁ d₂ hne x hx y hy => h d₁ d₂ hne x (hspans d₁ x hx) y (hspans d₂ y hy)

theorem Disjoint.behind_plain {start : Nat} {t : Token α (Mark D)}
    {rest : List (Token α (Mark D))} (h : Disjoint w start (t :: rest))
    (unmatched : ∀ d, t = .mark (.opening d) → .mark (.closing d) ∉ rest) :
    Disjoint w (start + (render w [t]).length) rest := by
  have hspans (d : D) : tokenSpans w d start (t :: rest) =
      tokenSpans w d (start + (render w [t]).length) rest :=
    tokenSpans_push (x := [t]) start (plain_passes (unmatched d))
  intro d d' hne
  have hboth := h d d' hne
  rw [hspans d, hspans d'] at hboth
  exact hboth

/-- A text with disjoint regions is parsed from left to right: at each token either a region
begins, or none does. -/
theorem exists_parsed {start : Nat} {toks : List (Token α (Mark D))} (h : Disjoint w start toks) :
    ∃ ps, Parsed ps ∧ flatten ps = toks := by
  induction hn : toks.length using Nat.strongRecOn generalizing start toks with
  | ind n ih =>
      cases toks with
      | nil => exact ⟨[], .nil, rfl⟩
      | cons t rest =>
          rw [List.length_cons] at hn
          by_cases hregion : ∃ d, t = .mark (.opening d) ∧ .mark (.closing d) ∈ rest
          · obtain ⟨d, rfl, hmem⟩ := hregion
            obtain ⟨inside, after, rfl, hinside⟩ := List.eq_append_cons_of_mem hmem
            rw [← List.cons_append] at h
            simp only [List.length_cons, List.length_append] at hn
            obtain ⟨ps, hparsed, rfl⟩ := ih after.length (by omega) (h.behind_region hinside) rfl
            refine ⟨.region d inside :: ps, .region hparsed hinside (h.others hinside), ?_⟩
            simp [flatten_cons, Piece.tokens]
          · have hunmatched : ∀ d, t = .mark (.opening d) → .mark (.closing d) ∉ rest :=
              fun d ht hmem => hregion ⟨d, ht, hmem⟩
            obtain ⟨ps, hparsed, rfl⟩ :=
              ih rest.length (by omega) (h.behind_plain hunmatched) rfl
            exact ⟨.plain t :: ps, .plain hparsed hunmatched, rfl⟩

end Kinds
end Search
