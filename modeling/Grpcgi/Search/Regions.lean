import Grpcgi.Search.Marks

/-!
# Regions between marks

A region goes from one word up to the next occurrence of another one. The regions of a text
are found from left to right and do not overlap, as a regular expression finds them.
-/

namespace Search

section Regions

variable {α : Type*} [DecidableEq α] (b e : List α)

/-- The first region: what is in front of it, inside it and behind it. -/
def region (s : List α) : Option (List α × List α × List α) :=
  match cut b s with
  | none => none
  | some (before, opened) =>
    (cut e opened).map fun (inside, after) => (before, inside, after)

def regionsFuel : Nat → List α → List (List α × List α) × List α
  | 0, s => ([], s)
  | fuel + 1, s =>
    match region b e s with
    | none => ([], s)
    | some (before, inside, after) =>
      ((before, inside) :: (regionsFuel fuel after).1, (regionsFuel fuel after).2)

/-- The regions of a list, each with what is in front of it, and what is behind the last. -/
def regions (s : List α) : List (List α × List α) × List α := regionsFuel b e s.length s

/-- Put the same text into every region. -/
def fill (fresh : List α) (found : List (List α × List α) × List α) : List α :=
  (found.1.flatMap fun part => part.1 ++ b ++ fresh ++ e) ++ found.2

def substitute (fresh s : List α) : List α := fill b e fresh (regions b e s)

/-- Where the regions begin and end, if the first text begins at `start`. -/
def spansFrom : Nat → List (List α × List α) → List (Nat × Nat)
  | _, [] => []
  | start, (before, inside) :: parts =>
    (start + before.length, start + before.length + (b ++ inside ++ e).length) ::
      spansFrom (start + before.length + (b ++ inside ++ e).length) parts

def spans (s : List α) : List (Nat × Nat) := spansFrom b e 0 (regions b e s).1

variable {b e}

theorem region_eq {s before inside after : List α}
    (h : region b e s = some (before, inside, after)) :
    s = before ++ b ++ (inside ++ e ++ after) := by
  rw [region] at h
  cases hb : cut b s with
  | none =>
      rw [hb] at h
      cases h
  | some opening =>
      rw [hb] at h
      obtain ⟨⟨inside', after'⟩, he, heq⟩ := Option.map_eq_some_iff.mp h
      cases heq
      rw [eq_append_of_cut hb, eq_append_of_cut he]

theorem regionsFuel_congr (hb : b ≠ []) {m n : Nat} (s : List α) (hm : s.length ≤ m)
    (hn : s.length ≤ n) : regionsFuel b e m s = regionsFuel b e n s := by
  have hnil : region b e [] = none := by rw [region, cut_nil hb]
  induction m generalizing n s with
  | zero =>
      rw [List.length_eq_zero_iff.mp (Nat.le_zero.mp hm)]
      cases n with
      | zero => rfl
      | succ n => rw [regionsFuel, regionsFuel, hnil]
  | succ m ih =>
      cases n with
      | zero =>
          rw [List.length_eq_zero_iff.mp (Nat.le_zero.mp hn), regionsFuel, regionsFuel, hnil]
      | succ n =>
          rw [regionsFuel, regionsFuel]
          cases hregion : region b e s with
          | none => rfl
          | some found =>
              obtain ⟨before, inside, after⟩ := found
              have hpos := List.length_pos_iff.mpr hb
              have hlength := congrArg List.length (region_eq hregion)
              simp only [List.length_append] at hlength
              simp only [ih after (n := n) (by omega) (by omega)]

theorem regions_none (hb : b ≠ []) {s : List α} (h : region b e s = none) :
    regions b e s = ([], s) := by
  rw [regions, regionsFuel_congr hb s (Nat.le_refl _) (Nat.le_succ _), regionsFuel, h]

theorem regions_some (hb : b ≠ []) {s before inside after : List α}
    (h : region b e s = some (before, inside, after)) :
    regions b e s = ((before, inside) :: (regions b e after).1, (regions b e after).2) := by
  have hlength := congrArg List.length (region_eq h)
  simp only [List.length_append] at hlength
  have hcongr : regionsFuel b e s.length after = regions b e after :=
    regionsFuel_congr hb after (by omega) (Nat.le_refl _)
  rw [regions, regionsFuel_congr hb s (Nat.le_refl _) (Nat.le_succ _), regionsFuel, h]
  simp only [hcongr]

end Regions

/-! ## Regions of tokens -/

section Render

variable {α M : Type*} [DecidableEq α] [DecidableEq M] {w : Marks α M}

theorem region_render {toks : List (Token α M)} (h : Canonical w toks) (m m' : M) :
    region (w.word m) (w.word m') (render w toks) =
      (region [.mark m] [.mark m'] toks).map fun found =>
        (render w found.1, render w found.2.1, render w found.2.2) := by
  rw [region, region, cut_render h m]
  cases hopen : cut [.mark m] toks with
  | none => rfl
  | some found =>
      obtain ⟨before, opened⟩ := found
      have hcanonical : Canonical w opened := by
        rw [eq_append_of_cut hopen] at h
        exact h.of_append
      simp only [Option.map_some, Prod.map, cut_render hcanonical m', Option.map_map]
      rfl

/-- The regions of a text are those of its tokens. -/
theorem regions_render {toks : List (Token α M)} (h : Canonical w toks) (m m' : M) :
    regions (w.word m) (w.word m') (render w toks) =
      ((regions [.mark m] [.mark m'] toks).1.map (Prod.map (render w) (render w)),
        render w (regions [.mark m] [.mark m'] toks).2) := by
  have hmark : [Token.mark (α := α) m] ≠ [] := List.cons_ne_nil _ _
  induction hn : toks.length using Nat.strongRecOn generalizing toks with
  | ind n ih =>
      have hrender := region_render h m m'
      cases hregion : region [.mark m] [.mark m'] toks with
      | none =>
          rw [hregion] at hrender
          rw [regions_none (w.word_ne_nil m) hrender, regions_none hmark hregion]
          rfl
      | some found =>
          obtain ⟨before, inside, after⟩ := found
          rw [hregion] at hrender
          have htoks := region_eq hregion
          have hlength := congrArg List.length htoks
          simp only [List.length_append, List.length_cons, List.length_nil] at hlength
          have hafter : Canonical w after := by
            rw [htoks, ← List.append_assoc] at h
            exact h.of_append
          rw [regions_some (w.word_ne_nil m) hrender, regions_some hmark hregion,
            ih after.length (by omega) hafter rfl]
          rfl

end Render

theorem fill_render {α M : Type*} {w : Marks α M} (m m' : M) (fresh : List α)
    (found : List (List (Token α M) × List (Token α M)) × List (Token α M)) :
    fill (w.word m) (w.word m') fresh
        (found.1.map (Prod.map (render w) (render w)), render w found.2) =
      render w (fill [.mark m] [.mark m'] (fresh.map Token.other) found) := by
  obtain ⟨parts, tail⟩ := found
  rw [fill, fill, render_append]
  congr 1
  induction parts with
  | nil => rfl
  | cons part parts ih =>
      rw [List.map_cons, List.flatMap_cons, List.flatMap_cons, render_append, ih]
      simp only [render_append, render_singleton, render_other]
      rfl

end Search
