import Mathlib.Data.List.Infix

/-!
# The first occurrence

`cut needle s` cuts a list at the first place where `needle` stands in it. A search skips
what no occurrence begins in, and a needle of one element is found at its first copy.
-/

namespace Search

variable {α : Type*} [DecidableEq α]

/-- What stands before the first occurrence of `needle`, and what behind it. -/
def cut (needle : List α) : List α → Option (List α × List α)
  | [] => if needle = [] then some ([], []) else none
  | a :: s =>
    if needle.isPrefixOf (a :: s) then some ([], (a :: s).drop needle.length)
    else (cut needle s).map (Prod.map (a :: ·) id)

theorem cut_nil {needle : List α} (h : needle ≠ []) : cut needle [] = none := if_neg h

theorem cut_start (needle s : List α) : cut needle (needle ++ s) = some ([], s) := by
  cases hs : needle ++ s with
  | nil =>
      obtain ⟨rfl, rfl⟩ := List.append_eq_nil_iff.mp hs
      rfl
  | cons a t =>
      have hprefix : needle.isPrefixOf (a :: t) = true := by
        rw [← hs]
        exact List.isPrefixOf_iff_prefix.mpr (List.prefix_append needle s)
      rw [cut, if_pos hprefix, ← hs, List.drop_left]

theorem cut_cons {needle s : List α} {a : α} (h : ¬ needle <+: a :: s) :
    cut needle (a :: s) = (cut needle s).map (Prod.map (a :: ·) id) := by
  rw [cut, if_neg (mt List.isPrefixOf_iff_prefix.mp h)]

/-- The search passes over `x` if no occurrence begins in it. -/
theorem cut_append {needle x s : List α} (h : ∀ z, z ≠ [] → z <:+ x → ¬ needle <+: z ++ s) :
    cut needle (x ++ s) = (cut needle s).map (Prod.map (x ++ ·) id) := by
  induction x with
  | nil =>
      show _ = (cut needle s).map id
      rw [Option.map_id]
      rfl
  | cons a x ih =>
      have hhere : ¬ needle <+: a :: (x ++ s) := h (a :: x) (List.cons_ne_nil a x) List.suffix_rfl
      have hrest : ∀ z, z ≠ [] → z <:+ x → ¬ needle <+: z ++ s :=
        fun z hz hsuffix => h z hz (hsuffix.trans (List.suffix_cons a x))
      rw [List.cons_append, cut_cons hhere, ih hrest, Option.map_map]
      rfl

/-- So it does if the first element of the needle is not in `x`. -/
theorem cut_append_of_not_mem {a : α} {needle x s : List α} (h : a ∉ x) :
    cut (a :: needle) (x ++ s) = (cut (a :: needle) s).map (Prod.map (x ++ ·) id) := by
  apply cut_append
  intro z hz hsuffix hprefix
  obtain ⟨b, z, rfl⟩ := List.exists_cons_of_ne_nil hz
  have hab : a = b := (List.cons_prefix_cons.mp hprefix).1
  exact h (hsuffix.subset (hab ▸ List.mem_cons_self))

theorem cut_singleton {t : α} {x s : List α} (h : t ∉ x) : cut [t] (x ++ t :: s) = some (x, s) := by
  rw [cut_append_of_not_mem h]
  show (cut [t] ([t] ++ s)).map _ = _
  rw [cut_start, Option.map_some]
  show some (x ++ [], s) = _
  rw [List.append_nil]

theorem cut_singleton_none {t : α} {s : List α} (h : t ∉ s) : cut [t] s = none := by
  have hskip : cut [t] (s ++ []) = (cut [t] []).map (Prod.map (s ++ ·) id) :=
    cut_append_of_not_mem h
  rw [List.append_nil] at hskip
  exact hskip

/-- The parts and the needle make up the list. -/
theorem eq_append_of_cut {needle s before after : List α}
    (h : cut needle s = some (before, after)) : s = before ++ needle ++ after := by
  induction s generalizing before with
  | nil =>
      rw [cut] at h
      split at h
      · rename_i hnil
        cases h
        rw [hnil]
        rfl
      · cases h
  | cons a s ih =>
      rw [cut] at h
      split at h
      · rename_i hprefix
        cases h
        rw [List.nil_append]
        exact (List.prefix_iff_eq_append.mp (List.isPrefixOf_iff_prefix.mp hprefix)).symm
      · obtain ⟨⟨x, y⟩, hcut, heq⟩ := Option.map_eq_some_iff.mp h
        cases heq
        rw [ih hcut]
        rfl

end Search
