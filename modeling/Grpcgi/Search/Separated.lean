import Grpcgi.Search.Cut

/-!
# Searching between separators

A list is cut into parts at a separator `q`. A needle that begins and ends with `q` occurs
where consecutive parts of the list are the parts of the needle, so that the search can be
done on parts.
-/

namespace Search

variable {α : Type*} {q : α}

/-- Each part behind a separator. -/
def marked (q : α) (parts : List (List α)) : List α := parts.flatMap (q :: ·)

theorem marked_append (parts parts' : List (List α)) :
    marked q (parts ++ parts') = marked q parts ++ marked q parts' := List.flatMap_append

/-- The first separator of a joined list belongs to nobody. -/
theorem marked_eq {parts : List (List α)} (h : parts ≠ []) :
    marked q parts = q :: [q].intercalate parts := by
  induction parts with
  | nil => exact absurd rfl h
  | cons p parts ih =>
      cases parts with
      | nil =>
          rw [List.intercalate_singleton]
          show (q :: p) ++ [] = q :: p
          exact List.append_nil _
      | cons p' parts =>
          rw [List.intercalate_cons_cons]
          show (q :: p) ++ marked q (p' :: parts) = _
          rw [ih (List.cons_ne_nil _ _)]
          simp

theorem intercalate_cons {p : List α} {parts : List (List α)} :
    [q].intercalate (p :: parts) = p ++ marked q parts := by
  have hmarked := marked_eq (q := q) (List.cons_ne_nil p parts)
  exact (List.cons.inj hmarked).2.symm

/-- Up to the first separator, two lists with a common beginning agree. -/
theorem free_prefix_iff {r p a b : List α} (hr : q ∉ r) (hp : q ∉ p) :
    r ++ q :: a <+: p ++ q :: b ↔ r = p ∧ a <+: b := by
  induction r generalizing p with
  | nil =>
      cases p with
      | nil => simp [List.cons_prefix_cons]
      | cons c p =>
          have hc : q ≠ c := fun heq => hp (heq ▸ List.mem_cons_self)
          simp [List.cons_prefix_cons, hc]
  | cons c r ih =>
      obtain ⟨hc, hr⟩ := not_or.mp (mt List.mem_cons.mpr hr)
      cases p with
      | nil => simp [List.cons_prefix_cons, Ne.symm hc]
      | cons d p =>
          have hp : q ∉ p := fun hmem => hp (List.mem_cons_of_mem d hmem)
          rw [List.cons_append, List.cons_append, List.cons_prefix_cons, ih hr hp,
            List.cons.injEq, and_assoc]

/-- A run of parts between separators. -/
theorem marked_prefix_iff {run inner : List (List α)} {last : List α} (hrun : ∀ r ∈ run, q ∉ r)
    (hinner : ∀ p ∈ inner, q ∉ p) (hlast : q ∉ last) :
    marked q run ++ [q] <+: marked q (inner ++ [last]) ↔ run <+: inner := by
  induction run generalizing inner with
  | nil =>
      have hsome : marked q (inner ++ [last]) = q :: [q].intercalate (inner ++ [last]) :=
        marked_eq (List.append_ne_nil_of_right_ne_nil _ (List.cons_ne_nil _ _))
      rw [hsome]
      simp [marked, List.cons_prefix_cons]
  | cons r run ih =>
      obtain ⟨hr, hrun⟩ := List.forall_mem_cons.mp hrun
      obtain ⟨a, ha⟩ : ∃ a, marked q run ++ [q] = q :: a := by
        cases run with
        | nil => exact ⟨[], rfl⟩
        | cons r' run => exact ⟨_, rfl⟩
      have hleft : marked q (r :: run) ++ [q] = q :: (r ++ (marked q run ++ [q])) := by
        simp [marked]
      cases inner with
      | nil =>
          have hright : marked q ([] ++ [last]) = q :: last := by simp [marked]
          rw [hleft, hright, List.cons_prefix_cons]
          constructor
          · rintro ⟨-, hbegin⟩
            have hmem : q ∈ r ++ (marked q run ++ [q]) := by simp
            exact absurd (hbegin.subset hmem) hlast
          · exact fun hnil => absurd (List.prefix_nil.mp hnil) (List.cons_ne_nil _ _)
      | cons p inner =>
          obtain ⟨hp, hinner⟩ := List.forall_mem_cons.mp hinner
          have hright : marked q (p :: inner ++ [last]) =
              q :: (p ++ marked q (inner ++ [last])) := rfl
          obtain ⟨b, hb⟩ : ∃ b, marked q (inner ++ [last]) = q :: b :=
            ⟨_, marked_eq (List.append_ne_nil_of_right_ne_nil _ (List.cons_ne_nil _ _))⟩
          have hih := ih hrun hinner
          rw [ha, hb, List.cons_prefix_cons, and_iff_right rfl] at hih
          rw [hleft, hright, List.cons_prefix_cons, and_iff_right rfl, ha, hb,
            free_prefix_iff hr hp, hih, List.cons_prefix_cons]

section Cut

variable [DecidableEq α]

theorem not_mem_of_mem_splitOn {s p : List α} (h : p ∈ s.splitOn q) : q ∉ p := by
  induction s generalizing p with
  | nil =>
      rw [List.splitOn_nil, List.mem_singleton] at h
      rw [h]
      exact List.not_mem_nil
  | cons a s ih =>
      rw [List.splitOn_cons_eq_if_modifyHead] at h
      split at h
      · obtain rfl | h := List.mem_cons.mp h
        · exact List.not_mem_nil
        · exact ih h
      · rename_i hne
        obtain ⟨first, parts, hparts⟩ := List.exists_cons_of_ne_nil (List.splitOn_ne_nil q s)
        rw [hparts] at h ih
        obtain rfl | h := List.mem_cons.mp h
        · intro hmem
          obtain rfl | hmem := List.mem_cons.mp hmem
          · exact hne BEq.rfl
          · exact ih List.mem_cons_self hmem
        · exact ih (List.mem_cons_of_mem _ h)

theorem cut_marked_inner {run inner : List (List α)} {last : List α} (hne : run ≠ [])
    (hrun : ∀ r ∈ run, q ∉ r) (hinner : ∀ p ∈ inner, q ∉ p) (hlast : q ∉ last) :
    cut (marked q run ++ [q]) (marked q (inner ++ [last])) =
      (cut run inner).map fun (before, after) =>
        (marked q before, [q].intercalate (after ++ [last])) := by
  have hneedle : marked q run ++ [q] = q :: ([q].intercalate run ++ [q]) := by
    rw [marked_eq hne]
    rfl
  induction inner with
  | nil =>
      have hlist : marked q ([] ++ [last]) = q :: last := List.append_nil _
      have hmiss : ¬ marked q run ++ [q] <+: q :: last := by
        rw [← hlist, marked_prefix_iff hrun hinner hlast]
        exact fun hnil => hne (List.prefix_nil.mp hnil)
      have hnone : cut (q :: ([q].intercalate run ++ [q])) last = none := by
        rw [← List.append_nil last, cut_append_of_not_mem hlast, cut_nil (List.cons_ne_nil _ _)]
        rfl
      rw [hlist, cut_cons hmiss, hneedle, hnone, cut_nil hne]
      rfl
  | cons p inner ih =>
      have hiff := marked_prefix_iff hrun hinner hlast
      obtain ⟨hp, hrest⟩ := List.forall_mem_cons.mp hinner
      by_cases hprefix : run <+: p :: inner
      · obtain ⟨after, hafter⟩ := hprefix
        have hlist : marked q (run ++ after ++ [last]) =
            marked q run ++ [q] ++ [q].intercalate (after ++ [last]) := by
          rw [List.append_assoc, marked_append,
            marked_eq (List.append_ne_nil_of_right_ne_nil after (List.cons_ne_nil last []))]
          simp
        rw [← hafter, hlist, cut_start, cut_start]
        rfl
      · have hmiss : ¬ marked q run ++ [q] <+: q :: (p ++ marked q (inner ++ [last])) :=
          mt hiff.mp hprefix
        show cut _ (q :: (p ++ marked q (inner ++ [last]))) = _
        rw [cut_cons hmiss, hneedle, cut_append_of_not_mem hp, ← hneedle, ih hrest,
          cut_cons hprefix, Option.map_map, Option.map_map, Option.map_map]
        rfl

/-- The search in the list is the search in its parts. The first and the last part are not
between two separators. -/
theorem cut_marked {run inner : List (List α)} {first last : List α} (hne : run ≠ [])
    (hrun : ∀ r ∈ run, q ∉ r) (hfirst : q ∉ first) (hinner : ∀ p ∈ inner, q ∉ p)
    (hlast : q ∉ last) :
    cut (marked q run ++ [q]) (first ++ marked q (inner ++ [last])) =
      (cut run inner).map fun (before, after) =>
        (first ++ marked q before, [q].intercalate (after ++ [last])) := by
  have hneedle : marked q run ++ [q] = q :: ([q].intercalate run ++ [q]) := by
    rw [marked_eq hne]
    rfl
  rw [hneedle, cut_append_of_not_mem hfirst, ← hneedle, cut_marked_inner hne hrun hinner hlast,
    Option.map_map]
  rfl

end Cut
end Search
