import Grpcgi.HeaderTable.Tables
import Grpcgi.Search.Refresh
import Mathlib.Data.List.Infix

/-!
# Splicing the header table into the schema

`splice` of `docs/spec/tools/header_table.py` replaces what stands between the markers of one
direction by the rendered table. The script runs it once for each direction.
-/

namespace Grpcgi.HeaderTable

open Search (Mark Marks Chunk spans substitute substituteAll)

/-! ## The splice -/

/-- `BEGIN.format(direction=direction.upper())`. -/
def beginMarker (direction : Direction) : Str :=
  "  // BEGIN GENERATED ".toList ++ asciiUpper (directionName direction) ++
    " HEADER TABLE".toList

/-- `END.format(direction=direction.upper())`. -/
def endMarker (direction : Direction) : Str :=
  "  // END GENERATED ".toList ++ asciiUpper (directionName direction) ++
    " HEADER TABLE".toList

/-- Where the pattern of `splice` matches. -/
def matchesOf (direction : Direction) (text : Str) : List (Nat × Nat) :=
  spans (beginMarker direction) (endMarker direction) text

/-- `splice`. -/
def splice (text : Str) (direction : Direction) : Except Abort Str :=
  if matchesOf direction text = [] then .error (.markersNotFound direction)
  else do
    let block ← renderBlock (table direction)
    return substitute (beginMarker direction) (endMarker direction)
      ("\n".toList ++ block ++ "\n".toList) text

/-- What `main` does with the schema. -/
def spliceBoth (text : Str) : Except Abort Str := do
  let text ← splice text .request
  splice text .response

/-! ## The markers -/

/-- The marker of a direction. -/
def marker : Mark Direction → Str
  | .opening direction => beginMarker direction
  | .closing direction => endMarker direction

theorem marker_indented (m : Mark Direction) : ∃ rest, marker m = ' ' :: ' ' :: rest := by
  cases m with
  | opening direction => exact ⟨_, rfl⟩
  | closing direction => exact ⟨_, rfl⟩

theorem marker_capital (m : Mark Direction) : 'N' ∈ marker m := by
  cases m with
  | opening direction => cases direction <;> decide
  | closing direction => cases direction <;> decide

theorem marker_unique {m m' : Mark Direction} (h : marker m <+: marker m') : m = m' := by
  revert h
  cases m with
  | opening direction =>
      cases m' with
      | opening direction' => cases direction <;> cases direction' <;> decide
      | closing direction' => cases direction <;> cases direction' <;> decide
  | closing direction =>
      cases m' with
      | opening direction' => cases direction <;> cases direction' <;> decide
      | closing direction' => cases direction <;> cases direction' <;> decide

/-- The indentation of a marker is only at its beginning. -/
theorem marker_tails (m : Mark Direction) :
    ∀ z ∈ (marker m).tails, z ≠ [] → z ≠ marker m → ¬ [' ', ' '] <+: z ∧ z ≠ [' '] := by
  cases m with
  | opening direction => cases direction <;> decide +kernel
  | closing direction => cases direction <;> decide +kernel

/-- The markers do not overlap. -/
def markers : Marks Char (Mark Direction) where
  word := marker
  word_ne_nil m := by
    obtain ⟨rest, hrest⟩ := marker_indented m
    rw [hrest]
    exact List.cons_ne_nil _ _
  word_unique := marker_unique
  apart := by
    intro m m' z hz hsuffix hproper
    obtain ⟨hindented, hspace⟩ := marker_tails m z ((List.mem_tails _ _).mpr hsuffix) hz hproper
    obtain ⟨rest, hrest⟩ := marker_indented m'
    rw [hrest]
    constructor
    · intro hbegin
      match z, hz with
      | [a], _ => exact hspace (congrArg ([·]) (List.cons_prefix_cons.mp hbegin).1)
      | a :: b :: z, _ =>
          obtain ⟨rfl, htail⟩ := List.cons_prefix_cons.mp hbegin
          obtain ⟨rfl, -⟩ := List.cons_prefix_cons.mp htail
          exact hindented ⟨z, rfl⟩
    · intro hinside
      have hbegin : [' ', ' '] <+: ' ' :: ' ' :: rest := ⟨rest, rfl⟩
      exact hindented (hbegin.trans hinside)

/-! ## Splices -/

/-- What `splice` puts between the markers. -/
def inserted (block : Str) : Str := "\n".toList ++ block ++ "\n".toList

/-- The blocks of both directions. -/
theorem exists_blocks : ∃ block : Direction → Str, ∀ direction,
    renderBlock (table direction) = .ok (block direction) ∧ 'N' ∉ block direction := by
  choose block hblock using renderBlock_table
  exact ⟨block, hblock⟩

theorem not_marker_infix {block : Str} (h : 'N' ∉ block) (m : Mark Direction) :
    ¬ markers.word m <:+: inserted block := by
  intro hinfix
  have hmem : 'N' ∈ inserted block := hinfix.subset (marker_capital m)
  simp only [inserted, List.mem_append] at hmem
  obtain (hline | hblock) | hline := hmem
  · revert hline
    decide
  · exact h hblock
  · revert hline
    decide

theorem separate_of_apart {text : Str}
    (h : ∀ x ∈ matchesOf .request text, ∀ y ∈ matchesOf .response text,
      x.2 ≤ y.1 ∨ y.2 ≤ x.1) : Search.Separate markers text := by
  intro direction direction' hne x hx y hy
  -- the other order of the directions is the same fact
  cases direction with
  | request =>
      cases direction' with
      | request => exact absurd rfl hne
      | response => exact h x hx y hy
  | response =>
      cases direction' with
      | request => exact (h y hy x hx).symm
      | response => exact absurd rfl hne

section Schema

variable {block : Direction → Str} {text : Str}
  (hblock : ∀ direction,
    renderBlock (table direction) = .ok (block direction) ∧ 'N' ∉ block direction)
  (hfound : ∀ direction, matchesOf direction text ≠ [])
  (hseparate : Search.Separate markers text)

include hblock in
theorem not_infix_inserted (direction : Direction) (m : Mark Direction) :
    ¬ markers.word m <:+: (inserted ∘ block) direction :=
  not_marker_infix (hblock direction).2 m

include hblock hfound hseparate

/-- One splice after others is one more substitution. -/
theorem splice_substituteAll (done : List Direction) (direction : Direction) :
    splice (substituteAll markers (inserted ∘ block) done text) direction =
      .ok (substituteAll markers (inserted ∘ block) (done ++ [direction]) text) := by
  have hregions : matchesOf direction (substituteAll markers (inserted ∘ block) done text) ≠ [] :=
    Search.spans_substituteAll_ne_nil (not_infix_inserted hblock) hseparate done
      (hfound direction)
  rw [splice, if_neg hregions, (hblock direction).1, substituteAll, substituteAll,
    List.foldl_append]
  rfl

/-- After the splices of both directions, in any order and number, the text is the same. -/
theorem splice_splice (done : List Direction) (first second : Direction) (hne : first ≠ second) :
    (splice (substituteAll markers (inserted ∘ block) done text) first >>=
        fun text => splice text second) =
      .ok (substituteAll markers (inserted ∘ block) [.request, .response] text) := by
  have hall : ∀ direction, direction ∈ done ++ [first] ++ [second] ↔
      direction ∈ [Direction.request, .response] := by
    intro direction
    cases direction <;> cases first <;> cases second <;> simp at hne ⊢
  have hfirst := splice_substituteAll hblock hfound hseparate done first
  have hsecond := splice_substituteAll hblock hfound hseparate (done ++ [first]) second
  rw [Search.substituteAll_congr (not_infix_inserted hblock) hseparate hall] at hsecond
  rw [hfirst]
  exact hsecond

end Schema

/-- One text has the same regions as the other, and differs from it only inside them. -/
def OnlyRegionsDiffer (text text' : Str) : Prop :=
  ∃ (chunks : List (Chunk Char Direction)) (fresh : Direction → Str),
    let chunks' := chunks.map (Chunk.renew fresh [.request, .response])
    Chunk.join markers chunks = text ∧ Chunk.join markers chunks' = text' ∧
      ∀ direction, Chunk.spans markers direction 0 chunks = matchesOf direction text ∧
        Chunk.spans markers direction 0 chunks' = matchesOf direction text'

/-- Splicing both tables into a schema whose regions do not overlap has a result, which is the
same in the other order and is not changed by another run. Only the regions change. -/
theorem spliceBoth_stable (text : Str) (hfound : ∀ direction, matchesOf direction text ≠ [])
    (hapart : ∀ x ∈ matchesOf .request text, ∀ y ∈ matchesOf .response text,
      x.2 ≤ y.1 ∨ y.2 ≤ x.1) :
    ∃ text', spliceBoth text = .ok text' ∧
      (splice text .response >>= fun text => splice text .request) = .ok text' ∧
      spliceBoth text' = .ok text' ∧ OnlyRegionsDiffer text text' := by
  obtain ⟨block, hblock⟩ := exists_blocks
  have hseparate := separate_of_apart hapart
  have hfresh := not_infix_inserted hblock
  have hsplice := splice_splice hblock hfound hseparate
  refine ⟨_, hsplice [] .request .response (by decide), hsplice [] .response .request (by decide),
    hsplice [.request, .response] .request .response (by decide), ?_⟩
  obtain ⟨chunks, hchunks⟩ := Search.exists_chunks hfresh hseparate
  obtain ⟨hjoin', hspans'⟩ := hchunks [.request, .response]
  obtain ⟨hjoin, hspans⟩ := hchunks []
  rw [Chunk.renew_nil, List.map_id] at hjoin hspans
  exact ⟨chunks, inserted ∘ block, hjoin.symm, hjoin'.symm, fun direction =>
    ⟨(hspans direction).symm, (hspans' direction).symm⟩⟩

/-- A schema before the first run, with a marker that ends no region. -/
def newSchema : Str :=
  endMarker .response ++ "\n".toList ++ beginMarker .request ++ "\n".toList ++
    endMarker .request ++ "\n".toList ++ beginMarker .response ++ "\n".toList ++
    endMarker .response

theorem spliceBoth_stable_newSchema :
    ∃ text', spliceBoth newSchema = .ok text' ∧
      (splice newSchema .response >>= fun text => splice text .request) = .ok text' ∧
      spliceBoth text' = .ok text' ∧ OnlyRegionsDiffer newSchema text' :=
  spliceBoth_stable newSchema
    (by intro direction; cases direction <;> decide +kernel)
    (by decide +kernel)

end Grpcgi.HeaderTable
