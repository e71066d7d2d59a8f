import Mathlib.Data.List.Basic

/-!
# Progress in rounds

A system in which one action at a time brings it on: `next` names the action, and
all others leave it waiting for the same one. If every round of a schedule has each
action that may be next, the system gets where it is going in as many rounds as it
has steps left.
-/

namespace Pipeline

variable {S τ : Type*}

/-- `next` brings the system on; `left` bounds how often that can happen. -/
structure Progress (act : S → τ → S) (Inv : S → Prop) (left : S → Nat) (next : S → τ) : Prop where
  inv : ∀ s a, Inv s → Inv (act s a)
  waits : ∀ s a, Inv s → left (act s a) < left s ∨
    left (act s a) = left s ∧ (left s = 0 ∨ next (act s a) = next s)
  moves : ∀ s, Inv s → left s ≠ 0 → left (act s (next s)) < left s

namespace Progress

variable {act : S → τ → S} {Inv : S → Prop} {left : S → Nat} {next : S → τ} {s : S}

theorem inv_foldl (h : Progress act Inv left next) (hinv : Inv s) (round : List τ) :
    Inv (round.foldl act s) := by
  induction round generalizing s with
  | nil => exact hinv
  | cons a round ih => exact ih (h.inv s a hinv)

theorem left_foldl (h : Progress act Inv left next) (hinv : Inv s) (round : List τ) :
    left (round.foldl act s) ≤ left s := by
  induction round generalizing s with
  | nil => exact Nat.le_refl _
  | cons a round ih =>
      have hrest := ih (h.inv s a hinv)
      have hstep : left (act s a) ≤ left s := by
        obtain hlt | ⟨heq, -⟩ := h.waits s a hinv
        · exact Nat.le_of_lt hlt
        · exact Nat.le_of_eq heq
      exact Nat.le_trans hrest hstep

/-- A round with the next action in it brings the system on. -/
theorem round (h : Progress act Inv left next) (hinv : Inv s) (hleft : left s ≠ 0)
    {round : List τ} (hnext : next s ∈ round) : left (round.foldl act s) < left s := by
  induction round generalizing s with
  | nil => cases hnext
  | cons a round ih =>
      have hrest := h.left_foldl (h.inv s a hinv) round
      by_cases ha : next s = a
      · subst ha
        exact Nat.lt_of_le_of_lt hrest (h.moves s hinv hleft)
      · obtain hlt | ⟨heq, hwait⟩ := h.waits s a hinv
        · exact Nat.lt_of_le_of_lt hrest hlt
        · have hsame := hwait.resolve_left hleft
          have hmem : next (act s a) ∈ round := by
            rw [hsame]
            exact (List.mem_cons.mp hnext).resolve_left ha
          rw [← heq]
          exact ih (h.inv s a hinv) (heq ▸ hleft) hmem

/-- Enough rounds bring it to the end. -/
theorem rounds (h : Progress act Inv left next) (hinv : Inv s) {rounds : List (List τ)}
    (hnext : ∀ round ∈ rounds, ∀ s, next s ∈ round) (hlength : left s ≤ rounds.length) :
    left (rounds.flatten.foldl act s) = 0 := by
  induction rounds generalizing s with
  | nil => exact Nat.le_zero.mp hlength
  | cons round rounds ih =>
      obtain ⟨hround, hrounds⟩ := List.forall_mem_cons.mp hnext
      rw [List.flatten_cons, List.foldl_append]
      apply ih (h.inv_foldl hinv round) hrounds
      rw [List.length_cons] at hlength
      by_cases hleft : left s = 0
      · have hle := h.left_foldl hinv round
        omega
      · have hlt := h.round hinv hleft (hround s)
        omega

end Progress

/-! ## One thing leads to another -/

/-- From where `P` holds, `n` rounds of this kind lead to where `Q` holds. -/
def Leads (act : S → τ → S) (Fair : List τ → Prop) (n : Nat) (P Q : S → Prop) : Prop :=
  ∀ s, P s → ∀ rounds : List (List τ), rounds.length = n → (∀ round ∈ rounds, Fair round) →
    Q (rounds.flatten.foldl act s)

/-- These actions keep the property. -/
def Stable (act : S → τ → S) (Allowed : τ → Prop) (Q : S → Prop) : Prop :=
  ∀ s a, Allowed a → Q s → Q (act s a)

section Leads

variable {act : S → τ → S} {Fair Fair' : List τ → Prop} {Allowed : τ → Prop} {n m : Nat}
  {P P' Q Q' R : S → Prop}

theorem Stable.foldl (h : Stable act Allowed Q) {s : S} (hs : Q s) {actions : List τ}
    (hallowed : ∀ a ∈ actions, Allowed a) : Q (actions.foldl act s) := by
  induction actions generalizing s with
  | nil => exact hs
  | cons a actions ih =>
      obtain ⟨ha, hrest⟩ := List.forall_mem_cons.mp hallowed
      exact ih (h s a ha hs) hrest

namespace Leads

theorem of_imp (h : ∀ s, P s → Q s) : Leads act Fair 0 P Q := by
  intro s hs rounds hlength _
  obtain rfl := List.length_eq_zero_iff.mp hlength
  exact h s hs

theorem consequence (h : Leads act Fair n P Q) (pre : ∀ s, P' s → P s) (post : ∀ s, Q s → Q' s) :
    Leads act Fair n P' Q' :=
  fun s hs rounds hlength hrounds => post _ (h s (pre s hs) rounds hlength hrounds)

theorem trans (h : Leads act Fair n P Q) (h' : Leads act Fair m Q R) :
    Leads act Fair (n + m) P R := by
  intro s hs rounds hlength hfair
  have hmid := h s hs (rounds.take n) (by rw [List.length_take]; omega)
    fun round hround => hfair round (List.mem_of_mem_take hround)
  have hend := h' _ hmid (rounds.drop n) (by rw [List.length_drop]; omega)
    fun round hround => hfair round (List.mem_of_mem_drop hround)
  rw [← List.foldl_append, ← List.flatten_append, List.take_append_drop] at hend
  exact hend

/-- A property that the rounds keep holds on both sides. -/
theorem and_stable (h : Leads act Fair n P Q) (hstable : Stable act Allowed R)
    (hfair : ∀ round, Fair round → ∀ a ∈ round, Allowed a) :
    Leads act Fair n (fun s => R s ∧ P s) (fun s => R s ∧ Q s) := by
  intro s hs rounds hlength hrounds
  refine ⟨hstable.foldl hs.1 fun a ha => ?_, h s hs.2 rounds hlength hrounds⟩
  obtain ⟨round, hround, hmem⟩ := List.mem_flatten.mp ha
  exact hfair round (hrounds round hround) a hmem

theorem of_fair (h : Leads act Fair n P Q) (hfair : ∀ round, Fair' round → Fair round) :
    Leads act Fair' n P Q :=
  fun s hs rounds hlength hrounds =>
    h s hs rounds hlength fun round hround => hfair round (hrounds round hround)

/-- More rounds do no harm to a stable property. -/
theorem le (h : Leads act Fair n P Q) (hstable : Stable act Allowed Q)
    (hfair : ∀ round, Fair round → ∀ a ∈ round, Allowed a) {s : S} (hs : P s)
    {rounds : List (List τ)} (hlength : n ≤ rounds.length)
    (hrounds : ∀ round ∈ rounds, Fair round) : Q (rounds.flatten.foldl act s) := by
  have hmid := h s hs (rounds.take n) (by rw [List.length_take]; omega)
    fun round hround => hrounds round (List.mem_of_mem_take hround)
  have hend := hstable.foldl hmid fun a (ha : a ∈ (rounds.drop n).flatten) => by
    obtain ⟨round, hround, hmem⟩ := List.mem_flatten.mp ha
    exact hfair round (hrounds round (List.mem_of_mem_drop hround)) a hmem
  rw [← List.foldl_append, ← List.flatten_append, List.take_append_drop] at hend
  exact hend

/-- A ladder of stable properties, of which one action that every round has takes the
system up one step. -/
theorem climb {P : Nat → S → Prop} (hstable : ∀ k, Stable act Allowed (P k)) {next : τ}
    (hnext : ∀ k s, P k s → P (k + 1) (act s next))
    (hfair : ∀ round, Fair round → ∀ a ∈ round, Allowed a)
    (hmem : ∀ round, Fair round → next ∈ round) (n : Nat) :
    Leads act Fair n (P 0) (P n) := by
  have hround : ∀ k s, P k s → ∀ round, Fair round → P (k + 1) (round.foldl act s) := by
    intro k s hs round hgood
    have hallowed := hfair round hgood
    obtain ⟨before, after, rfl⟩ := List.append_of_mem (hmem round hgood)
    rw [List.forall_mem_append, List.forall_mem_cons] at hallowed
    obtain ⟨hbefore, -, hafter⟩ := hallowed
    rw [List.foldl_append, List.foldl_cons]
    exact (hstable (k + 1)).foldl (hnext k _ ((hstable k).foldl hs hbefore)) hafter
  induction n with
  | zero => exact of_imp fun _ hs => hs
  | succ n ih =>
      refine ih.trans (m := 1) fun s hs rounds hlength hrounds => ?_
      obtain ⟨round, rfl⟩ := List.length_eq_one_iff.mp hlength
      rw [List.flatten_singleton]
      exact hround n s hs round (hrounds round (List.mem_singleton_self round))

end Leads

end Leads

end Pipeline
