import Grpcgi.Search.Pieces

/-!
# Putting new text into regions

New text without a mark in it, put into the regions of some kinds, makes no new regions and
destroys none. A text is therefore a list of chunks, and any number of substitutions, in any
order, changes nothing but the inside of the regions of their kinds.
-/

namespace Search

variable {α D : Type*}

/-! ## Chunks -/

/-- A part of a text: a region, or something outside the regions. -/
inductive Chunk (α D : Type*) where
  | outside (text : List α)
  | region (d : D) (inside : List α)

namespace Chunk

def text (w : Marks α (Mark D)) : Chunk α D → List α
  | .outside t => t
  | .region d inside => w.word (.opening d) ++ inside ++ w.word (.closing d)

/-- The text of all the chunks. -/
def join (w : Marks α (Mark D)) (chunks : List (Chunk α D)) : List α := chunks.flatMap (text w)

variable [DecidableEq D]

/-- Replace the inside of the regions of some kinds. -/
def renew (fresh : D → List α) (ds : List D) : Chunk α D → Chunk α D
  | .outside t => .outside t
  | .region d inside => .region d (if d ∈ ds then fresh d else inside)

/-- Where the regions of one kind are. -/
def spans (w : Marks α (Mark D)) (d : D) : Nat → List (Chunk α D) → List (Nat × Nat)
  | _, [] => []
  | start, .outside t :: chunks => spans w d (start + t.length) chunks
  | start, .region d' inside :: chunks =>
    let stop := start + (text w (.region d' inside)).length
    if d' = d then (start, stop) :: spans w d stop chunks else spans w d stop chunks

theorem renew_nil (fresh : D → List α) : renew fresh [] = id := by
  funext chunk
  cases chunk with
  | outside t => rfl
  | region d inside => rfl

theorem renew_congr {ds ds' : List D} (h : ∀ d, d ∈ ds ↔ d ∈ ds') (fresh : D → List α) :
    renew fresh ds = renew fresh ds' := by
  funext chunk
  cases chunk with
  | outside t => rfl
  | region d inside =>
      show Chunk.region d _ = Chunk.region d _
      congr 1
      exact if_congr (h d) rfl rfl

/-- A renewal leaves every region where it is in the order. -/
theorem length_spans_renew (w : Marks α (Mark D)) (fresh : D → List α) (ds : List D) (d : D)
    (start start' : Nat) (chunks : List (Chunk α D)) :
    (spans w d start (chunks.map (renew fresh ds))).length = (spans w d start' chunks).length := by
  induction chunks generalizing start start' with
  | nil => rfl
  | cons chunk chunks ih =>
      cases chunk with
      | outside t => exact ih _ _
      | region d' inside =>
          simp only [List.map_cons, renew, spans]
          split
          · exact congrArg (· + 1) (ih _ _)
          · exact ih _ _

end Chunk

namespace Piece

variable (w : Marks α (Mark D))

def chunk : Piece α D → Chunk α D
  | .plain t => .outside (t.text w)
  | .region d inside => .region d (render w inside)

/-- The text of the pieces is that of their chunks. -/
theorem render_flatten (ps : List (Piece α D)) :
    render w (flatten ps) = Chunk.join w (ps.map (chunk w)) := by
  induction ps with
  | nil => rfl
  | cons p ps ih =>
      rw [flatten_cons, render_append, ih, List.map_cons]
      cases p with
      | plain t =>
          show render w [t] ++ Chunk.join w (ps.map (chunk w)) =
            t.text w ++ Chunk.join w (ps.map (chunk w))
          rw [render_singleton]
      | region d inside =>
          rw [tokens, render_append, render_cons, render_singleton]
          rfl

variable [DecidableEq D]

/-- `Chunk.renew` for pieces. -/
def renew (fresh : D → List α) (ds : List D) : Piece α D → Piece α D
  | .plain t => .plain t
  | .region d inside => .region d (if d ∈ ds then (fresh d).map .other else inside)

theorem chunk_renew (fresh : D → List α) (ds : List D) (p : Piece α D) :
    (p.renew fresh ds).chunk w = (p.chunk w).renew fresh ds := by
  cases p with
  | plain t => rfl
  | region d inside =>
      show Chunk.region d _ = Chunk.region d _
      split
      · rw [render_other]
      · rfl

/-- Two substitutions are one. -/
theorem renew_renew (fresh : D → List α) (d : D) (ds : List D) (p : Piece α D) :
    (p.renew fresh [d]).renew fresh ds = p.renew fresh (d :: ds) := by
  cases p with
  | plain t => rfl
  | region d' inside =>
      show Piece.region d' _ = Piece.region d' _
      by_cases hds : d' ∈ ds
      · rw [if_pos hds, if_pos (List.mem_cons_of_mem d hds)]
      · rw [if_neg hds]
        congr 1
        refine if_congr ?_ rfl rfl
        simp [hds]

end Piece

section Marked

variable {w : Marks α (Mark D)}

theorem lead_append_mark (x : List (Token α (Mark D))) (m : Mark D)
    (y : List (Token α (Mark D))) : lead (x ++ .mark m :: y) = lead (x ++ [.mark m]) := by
  induction x with
  | nil => rfl
  | cons t x ih =>
      cases t with
      | other a => exact congrArg (a :: ·) ih
      | mark m' => rfl

/-- What is behind a mark does not matter in front of it. -/
theorem canonical_append_mark {x : List (Token α (Mark D))} {m : Mark D}
    {y : List (Token α (Mark D))} :
    Canonical w (x ++ .mark m :: y) ↔ Canonical w (x ++ [.mark m]) ∧ Canonical w y := by
  induction x with
  | nil => exact (and_iff_right trivial).symm
  | cons t x ih =>
      cases t with
      | other a =>
          show ((∀ m', ¬ w.word m' <+: a :: lead (x ++ .mark m :: y)) ∧
              Canonical w (x ++ .mark m :: y)) ↔
            ((∀ m', ¬ w.word m' <+: a :: lead (x ++ [.mark m])) ∧
              Canonical w (x ++ [.mark m])) ∧ Canonical w y
          rw [lead_append_mark, ih, and_assoc]
      | mark m' => exact ih

theorem canonical_other {s : List α} (h : ∀ m, ¬ w.word m <:+: s) (m : Mark D) :
    Canonical w (s.map .other ++ [.mark m]) := by
  have hlead (s : List α) : lead (s.map .other ++ [.mark m]) = s := by
    induction s with
    | nil => rfl
    | cons a s ih => exact congrArg (a :: ·) ih
  induction s with
  | nil => trivial
  | cons a s ih =>
      have hrest : ∀ m', ¬ w.word m' <:+: s := fun m' hinfix => h m' (List.infix_cons hinfix)
      refine ⟨?_, ih hrest⟩
      show ∀ m', ¬ w.word m' <+: a :: lead (s.map .other ++ [.mark m])
      rw [hlead]
      exact fun m' hbegin => h m' hbegin.isInfix

end Marked

section Renew

variable [DecidableEq D] {w : Marks α (Mark D)} {fresh : D → List α} {ds : List D}

/-- New text brings no marks. -/
theorem mem_flatten_renew {m : Mark D} {ps : List (Piece α D)}
    (h : .mark m ∈ flatten (ps.map (Piece.renew fresh ds))) : .mark m ∈ flatten ps := by
  induction ps with
  | nil => exact h
  | cons p ps ih =>
      rw [List.map_cons, flatten_cons, List.mem_append] at h
      rw [flatten_cons, List.mem_append]
      cases h with
      | inr hrest => exact .inr (ih hrest)
      | inl hhere =>
          refine .inl ?_
          cases p with
          | plain t => exact hhere
          | region d inside =>
              simp only [Piece.renew, Piece.tokens, List.cons_append, List.mem_cons,
                List.mem_append] at hhere ⊢
              obtain hopen | hinside | hclose := hhere
              · exact .inl hopen
              · split at hinside
                · obtain ⟨a, -, heq⟩ := List.mem_map.mp hinside
                  cases heq
                · exact .inr (.inl hinside)
              · exact .inr (.inr hclose)

theorem Parsed.renew {ps : List (Piece α D)} (h : Parsed ps) :
    Parsed (ps.map (Piece.renew fresh ds)) := by
  induction h with
  | nil => exact .nil
  | plain rest unmatched ih =>
      exact .plain ih fun d ht hmem => unmatched d ht (mem_flatten_renew hmem)
  | @region d inside ps rest closed others ih =>
      refine .region ih ?_ ?_
      · split
        · intro hmem
          obtain ⟨a, -, heq⟩ := List.mem_map.mp hmem
          cases heq
        · exact closed
      · intro d' hne u v heq hmem
        split at heq
        · have hmark : .mark (.opening d') ∈ (fresh d).map (Token.other (M := Mark D)) :=
            heq ▸ List.mem_append_right u List.mem_cons_self
          obtain ⟨a, -, hother⟩ := List.mem_map.mp hmark
          cases hother
        · refine others d' hne u v heq ?_
          simp only [List.mem_append, List.mem_cons] at hmem ⊢
          obtain hv | hclose | hrest := hmem
          · exact .inl hv
          · exact .inr (.inl hclose)
          · exact .inr (.inr (mem_flatten_renew hrest))

theorem lead_flatten_renew (ps : List (Piece α D)) :
    lead (flatten (ps.map (Piece.renew fresh ds))) = lead (flatten ps) := by
  induction ps with
  | nil => rfl
  | cons p ps ih =>
      cases p with
      | plain t =>
          cases t with
          | other a => exact congrArg (a :: ·) ih
          | mark m => rfl
      | region d inside => rfl

theorem canonical_renew (hfresh : ∀ d m, ¬ w.word m <:+: fresh d) {ps : List (Piece α D)}
    (h : Canonical w (flatten ps)) : Canonical w (flatten (ps.map (Piece.renew fresh ds))) := by
  induction ps with
  | nil => trivial
  | cons p ps ih =>
      rw [flatten_cons] at h
      rw [List.map_cons, flatten_cons]
      cases p with
      | plain t =>
          cases t with
          | other a =>
              refine ⟨?_, ih h.2⟩
              show ∀ m, ¬ w.word m <+: a :: lead (flatten (ps.map (Piece.renew fresh ds)))
              rw [lead_flatten_renew]
              exact h.1
          | mark m => exact ih h
      | region d inside =>
          have hbody : Canonical w (inside ++ .mark (.closing d) :: flatten ps) := by
            rw [Piece.tokens, List.append_assoc] at h
            exact h
          obtain ⟨hinside, hrest⟩ := canonical_append_mark.mp hbody
          show Canonical w ((Piece.region d _).tokens ++ _)
          rw [Piece.tokens, List.append_assoc]
          show Canonical w (_ ++ .mark (.closing d) :: flatten (ps.map (Piece.renew fresh ds)))
          refine canonical_append_mark.mpr ⟨?_, ih hrest⟩
          split
          · exact canonical_other (hfresh d) _
          · exact hinside

end Renew

/-! ## Substitutions -/

theorem fill_push {β : Type*} (b e new x : List β) (found : List (List β × List β) × List β) :
    fill b e new (push x found) = x ++ fill b e new found := by
  obtain ⟨_ | ⟨⟨before, inside⟩, parts⟩, tail⟩ := found
  · rfl
  · simp [fill, push]

theorem fill_regionsOf [DecidableEq D] {fresh : D → List α} (d : D) (ps : List (Piece α D)) :
    fill [.mark (.opening d)] [.mark (.closing d)] ((fresh d).map .other) (regionsOf d ps) =
      flatten (ps.map (Piece.renew fresh [d])) := by
  induction ps with
  | nil => rfl
  | cons p ps ih =>
      rw [List.map_cons, flatten_cons, ← ih]
      cases p with
      | plain t =>
          rw [regionsOf, fill_push]
          rfl
      | region d' inside =>
          rw [regionsOf]
          by_cases hd : d' = d
          · subst hd
            rw [if_pos rfl, Piece.renew, if_pos (List.mem_singleton_self d')]
            simp [fill, Piece.tokens]
          · rw [if_neg hd, fill_push, Piece.renew, if_neg (mt List.mem_singleton.mp hd)]

theorem spans_regionsOf [DecidableEq D] {w : Marks α (Mark D)} (d : D) (start : Nat)
    (ps : List (Piece α D)) :
    spansFrom (w.word (.opening d)) (w.word (.closing d)) start
        ((regionsOf d ps).1.map (Prod.map (render w) (render w))) =
      Chunk.spans w d start (ps.map (Piece.chunk w)) := by
  induction ps generalizing start with
  | nil => rfl
  | cons p ps ih =>
      rw [List.map_cons]
      cases p with
      | plain t =>
          rw [regionsOf, push_map (render w) render_append, spansFrom_push, ih, render_singleton]
          rfl
      | region d' inside =>
          rw [regionsOf, Piece.chunk, Chunk.spans]
          by_cases hd : d' = d
          · subst hd
            rw [if_pos rfl, if_pos rfl, List.map_cons, ← ih]
            rfl
          · have htext : render w (Piece.region d' inside).tokens =
                (Chunk.region d' (render w inside)).text w := by
              rw [Piece.tokens, render_append, render_cons, render_singleton]
              rfl
            rw [if_neg hd, if_neg hd, push_map (render w) render_append, spansFrom_push, ih, htext]

section Substitute

variable [DecidableEq α] [DecidableEq D] {w : Marks α (Mark D)} {fresh : D → List α}

/-- Substitutions of several kinds, one after the other. -/
def substituteAll (w : Marks α (Mark D)) (fresh : D → List α) (ds : List D) (s : List α) : List α :=
  ds.foldl (fun s d => substitute (w.word (.opening d)) (w.word (.closing d)) (fresh d) s) s

theorem substitute_flatten {ps : List (Piece α D)} (hcanonical : Canonical w (flatten ps))
    (hparsed : Parsed ps) (d : D) :
    substitute (w.word (.opening d)) (w.word (.closing d)) (fresh d) (render w (flatten ps)) =
      render w (flatten (ps.map (Piece.renew fresh [d]))) := by
  rw [substitute, regions_render hcanonical, fill_render, regions_flatten hparsed, fill_regionsOf]

/-- Substitutions of any kinds, in any order, are one renewal of the pieces. -/
theorem substituteAll_flatten (hfresh : ∀ d m, ¬ w.word m <:+: fresh d) (ds : List D)
    {ps : List (Piece α D)} (hcanonical : Canonical w (flatten ps)) (hparsed : Parsed ps) :
    substituteAll w fresh ds (render w (flatten ps)) =
      render w (flatten (ps.map (Piece.renew fresh ds))) := by
  induction ds generalizing ps with
  | nil =>
      have hsame (p : Piece α D) : p.renew fresh [] = p := by cases p <;> rfl
      have hmap : ps.map (Piece.renew fresh []) = ps :=
        (List.map_congr_left fun p _ => hsame p).trans (List.map_id ps)
      rw [hmap]
      rfl
  | cons d ds ih =>
      have hboth : (ps.map (Piece.renew fresh [d])).map (Piece.renew fresh ds) =
          ps.map (Piece.renew fresh (d :: ds)) := by
        rw [List.map_map]
        exact List.map_congr_left fun p _ => p.renew_renew fresh d ds
      show substituteAll w fresh ds (substitute _ _ (fresh d) (render w (flatten ps))) = _
      rw [substitute_flatten hcanonical hparsed, ih (canonical_renew hfresh hcanonical)
        hparsed.renew, hboth]

theorem spans_flatten {ps : List (Piece α D)} (hcanonical : Canonical w (flatten ps))
    (hparsed : Parsed ps) (d : D) :
    spans (w.word (.opening d)) (w.word (.closing d)) (render w (flatten ps)) =
      Chunk.spans w d 0 (ps.map (Piece.chunk w)) := by
  rw [spans, regions_render hcanonical, regions_flatten hparsed, spans_regionsOf]

/-- The regions of different kinds in a text do not overlap. -/
def Separate (w : Marks α (Mark D)) (s : List α) : Prop :=
  ∀ d d', d ≠ d' →
    ∀ x ∈ spans (w.word (.opening d)) (w.word (.closing d)) s,
    ∀ y ∈ spans (w.word (.opening d')) (w.word (.closing d')) s, x.2 ≤ y.1 ∨ y.2 ≤ x.1

/-- A text whose regions of different kinds do not overlap is a list of chunks, and
substitutions of any kinds, in any order and number, renew these chunks. -/
theorem exists_chunks (hfresh : ∀ d m, ¬ w.word m <:+: fresh d) {s : List α}
    (hseparate : Separate w s) :
    ∃ chunks : List (Chunk α D), ∀ ds,
      substituteAll w fresh ds s = Chunk.join w (chunks.map (Chunk.renew fresh ds)) ∧
      ∀ d, spans (w.word (.opening d)) (w.word (.closing d)) (substituteAll w fresh ds s) =
        Chunk.spans w d 0 (chunks.map (Chunk.renew fresh ds)) := by
  obtain ⟨toks, hcanonical, rfl⟩ := exists_canonical w s
  have htokens : Disjoint w 0 toks := by
    intro d d' hne
    have hboth := hseparate d d' hne
    rw [spans, spans, regions_render hcanonical, regions_render hcanonical] at hboth
    exact hboth
  obtain ⟨ps, hparsed, rfl⟩ := exists_parsed htokens
  refine ⟨ps.map (Piece.chunk w), fun ds => ?_⟩
  have hchunks : (ps.map (Piece.renew fresh ds)).map (Piece.chunk w) =
      (ps.map (Piece.chunk w)).map (Chunk.renew fresh ds) := by
    rw [List.map_map, List.map_map]
    exact List.map_congr_left fun p _ => p.chunk_renew w fresh ds
  rw [substituteAll_flatten hfresh ds hcanonical hparsed, ← hchunks]
  constructor
  · exact Piece.render_flatten w _
  · exact spans_flatten (canonical_renew hfresh hcanonical) hparsed.renew

/-- Neither the order nor the number of the substitutions matters. -/
theorem substituteAll_congr (hfresh : ∀ d m, ¬ w.word m <:+: fresh d) {s : List α}
    (hseparate : Separate w s) {ds ds' : List D} (h : ∀ d, d ∈ ds ↔ d ∈ ds') :
    substituteAll w fresh ds s = substituteAll w fresh ds' s := by
  obtain ⟨chunks, hchunks⟩ := exists_chunks hfresh hseparate
  rw [(hchunks ds).1, (hchunks ds').1, Chunk.renew_congr h]

/-- A text keeps its regions. -/
theorem spans_substituteAll_ne_nil (hfresh : ∀ d m, ¬ w.word m <:+: fresh d) {s : List α}
    (hseparate : Separate w s) (ds : List D) {d : D}
    (h : spans (w.word (.opening d)) (w.word (.closing d)) s ≠ []) :
    spans (w.word (.opening d)) (w.word (.closing d)) (substituteAll w fresh ds s) ≠ [] := by
  obtain ⟨chunks, hchunks⟩ := exists_chunks hfresh hseparate
  have hbefore : spans (w.word (.opening d)) (w.word (.closing d)) s =
      Chunk.spans w d 0 (chunks.map (Chunk.renew fresh [])) := (hchunks []).2 d
  rw [hbefore, ← List.length_pos_iff, Chunk.length_spans_renew w fresh [] d 0 0] at h
  rw [(hchunks ds).2 d, ← List.length_pos_iff, Chunk.length_spans_renew w fresh ds d 0 0]
  exact h

end Substitute

end Search
