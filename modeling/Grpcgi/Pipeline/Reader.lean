import Mathlib.Data.List.Basic
import Mathlib.Logic.Function.Iterate

/-!
# Readers of a stream

A task that reads a stream to its end and puts items into a queue: for each input
some items, and whether to go on. `Fed` is the invariant of the queue under all
interleavings with other tasks, one of which may cancel the reader; it says how
much of the reader's own output is there.
-/

namespace Pipeline

variable {α β : Type*}

/-- What the task puts for an input, and whether it goes on; and what it puts at
the end of the stream. -/
structure Reader (α β : Type*) where
  body : α → List β × Bool
  eof : List β

namespace Reader

/-- One turn with the inputs that are left. A task that is over has none. -/
def turn (r : Reader α β) : Option (List α) → List β × Option (List α)
  | none => ([], none)
  | some [] => (r.eof, none)
  | some (x :: xs) => ((r.body x).1, if (r.body x).2 then some xs else none)

/-- The task after some turns. -/
def after (r : Reader α β) (n : Nat) (rest : Option (List α)) : Option (List α) :=
  (fun rest => (r.turn rest).2)^[n] rest

/-- The items put in some turns. -/
def produced (r : Reader α β) : Nat → Option (List α) → List β
  | 0, _ => []
  | n + 1, rest => (r.turn rest).1 ++ r.produced n (r.turn rest).2

/-- All the items for a stream. -/
def total (r : Reader α β) : List α → List β
  | [] => r.eof
  | x :: xs => (r.body x).1 ++ if (r.body x).2 then r.total xs else []

variable {r : Reader α β}

@[simp] theorem after_zero (rest : Option (List α)) : r.after 0 rest = rest := rfl

theorem after_succ (n : Nat) (rest : Option (List α)) :
    r.after (n + 1) rest = (r.turn (r.after n rest)).2 :=
  Function.iterate_succ_apply' _ n rest

theorem produced_none (n : Nat) : r.produced n none = [] := by
  induction n with
  | zero => rfl
  | succ n ih => exact ih

theorem after_none (n : Nat) : r.after n none = none := Function.iterate_fixed rfl n

theorem produced_succ (n : Nat) (rest : Option (List α)) :
    r.produced (n + 1) rest = r.produced n rest ++ (r.turn (r.after n rest)).1 := by
  induction n generalizing rest with
  | zero => exact List.append_nil _
  | succ n ih =>
      have hnext := ih (r.turn rest).2
      rw [produced] at hnext ⊢
      rw [produced, produced, List.append_assoc, hnext]
      rfl

/-- The task never puts anything but the beginning of its whole output. -/
theorem produced_prefix (n : Nat) (xs : List α) : r.produced n (some xs) <+: r.total xs := by
  induction xs generalizing n with
  | nil =>
      cases n with
      | zero => exact List.nil_prefix
      | succ n =>
          rw [produced, turn, produced_none, List.append_nil]
          exact List.prefix_rfl
  | cons x xs ih =>
      cases n with
      | zero => exact List.nil_prefix
      | succ n =>
          simp only [produced, turn, total]
          apply (List.prefix_append_right_inj _).mpr
          split
          · exact ih n
          · have hnone : r.produced n none = [] := produced_none n
            exact hnone ▸ List.prefix_rfl

/-- A task that is over has put its whole output. -/
theorem produced_eq_total {n : Nat} {xs : List α} (hover : r.after n (some xs) = none) :
    r.produced n (some xs) = r.total xs := by
  induction xs generalizing n with
  | nil =>
      cases n with
      | zero => cases hover
      | succ n => rw [produced, turn, produced_none, List.append_nil, total]
  | cons x xs ih =>
      cases n with
      | zero => cases hover
      | succ n =>
          have hstep : r.after (n + 1) (some (x :: xs)) =
              r.after n (if (r.body x).2 then some xs else none) := rfl
          rw [hstep] at hover
          simp only [produced, turn, total]
          split
          · rename_i hgo
            rw [if_pos hgo] at hover
            rw [ih hover]
          · rw [produced_none]

/-- What is put in some turns and what is put for the rest. -/
theorem produced_total (n : Nat) (xs : List α) :
    r.produced n (some xs) ++ (r.after n (some xs)).elim [] r.total = r.total xs := by
  induction n generalizing xs with
  | zero => rfl
  | succ n ih =>
      have hafter (rest : Option (List α)) : r.after (n + 1) rest = r.after n (r.turn rest).2 := rfl
      have hover : r.produced n none ++ (r.after n none).elim [] r.total = [] := by
        rw [produced_none, after_none]
        rfl
      cases xs with
      | nil => rw [hafter, produced, turn, List.append_assoc, hover, List.append_nil, total]
      | cons x xs =>
          simp only [hafter, produced, turn, total, List.append_assoc]
          split
          · rw [ih]
          · rw [hover]

/-- Every task is over after one turn for each input and one for the end. -/
theorem after_eq_none {n : Nat} {xs : List α} (hn : xs.length < n) :
    r.after n (some xs) = none := by
  induction xs generalizing n with
  | nil =>
      cases n with
      | zero => cases hn
      | succ n => exact after_none n
  | cons x xs ih =>
      cases n with
      | zero => cases hn
      | succ n =>
          have hstep : r.after (n + 1) (some (x :: xs)) =
              r.after n (if (r.body x).2 then some xs else none) := rfl
          rw [hstep]
          split
          · exact ih (Nat.lt_of_succ_lt_succ hn)
          · exact after_none n

/-- The inputs that the reader goes on after take one turn each. -/
theorem produced_append {xs : List α} (h : ∀ x ∈ xs, (r.body x).2 = true) (n : Nat)
    (ys : List α) :
    r.produced (xs.length + n) (some (xs ++ ys)) =
      xs.flatMap (fun x => (r.body x).1) ++ r.produced n (some ys) := by
  induction xs with
  | nil => rw [List.length_nil, Nat.zero_add, List.nil_append, List.flatMap_nil, List.nil_append]
  | cons x xs ih =>
      obtain ⟨hx, hxs⟩ := List.forall_mem_cons.mp h
      have hstep : r.turn (some (x :: xs ++ ys)) = ((r.body x).1, some (xs ++ ys)) := by
        simp only [turn, List.cons_append, hx, if_true]
      rw [List.length_cons, Nat.succ_add, produced, hstep, ih hxs, List.flatMap_cons,
        List.append_assoc]

/-- What has been put once an input has ended the task. -/
theorem produced_stop {xs : List α} {x : α} (h : ∀ y ∈ xs, (r.body y).2 = true)
    (hx : (r.body x).2 = false) {n : Nat} (hn : xs.length < n) (ys : List α) :
    r.produced n (some (xs ++ x :: ys)) =
      xs.flatMap (fun y => (r.body y).1) ++ (r.body x).1 := by
  obtain ⟨k, rfl⟩ := Nat.exists_eq_add_of_lt hn
  have hstep : r.turn (some (x :: ys)) = ((r.body x).1, none) := by
    simp only [turn, hx, Bool.false_eq_true, if_false]
  rw [Nat.add_assoc, produced_append h, produced, hstep, produced_none, List.append_nil]

/-- What has been put once the stream is over. -/
theorem produced_end {xs : List α} (h : ∀ y ∈ xs, (r.body y).2 = true) {n : Nat}
    (hn : xs.length < n) :
    r.produced n (some xs) = xs.flatMap (fun y => (r.body y).1) ++ r.eof := by
  obtain ⟨k, rfl⟩ := Nat.exists_eq_add_of_lt hn
  have happend := produced_append h (k + 1) []
  rw [List.append_nil] at happend
  rw [Nat.add_assoc, happend, produced, turn, produced_none, List.append_nil]

end Reader

/-- A queue that began with `seed` and that a reader of `xs` has fed. While
`running` holds the reader has had all of its turns; later it may be cancelled. -/
structure Fed (r : Reader α β) (xs : List α) (seed : List β) (turns : Nat) (running : Prop)
    (rest : Option (List α)) (history : List β) : Prop where
  fed : ∃ n, history = seed ++ r.produced n (some xs) ∧
    (rest = r.after n (some xs) ∨ rest = none) ∧
    (running → n = turns ∧ rest = r.after n (some xs))

namespace Fed

variable {r : Reader α β} {xs : List α} {seed history : List β} {turns : Nat}
  {running running' : Prop} {rest : Option (List α)}

theorem start : Fed r xs seed 0 running (some xs) seed :=
  ⟨0, (List.append_nil _).symm, .inl rfl, fun _ => ⟨rfl, rfl⟩⟩

/-- Another task's turn. -/
theorem mono (h : Fed r xs seed turns running rest history) (hrunning : running' → running) :
    Fed r xs seed turns running' rest history := by
  obtain ⟨n, hhistory, hrest, hlive⟩ := h
  exact ⟨n, hhistory, hrest, fun h' => hlive (hrunning h')⟩

theorem turn (h : Fed r xs seed turns running rest history) :
    Fed r xs seed (turns + 1) running (r.turn rest).2 (history ++ (r.turn rest).1) := by
  obtain ⟨n, hhistory, hrest, hlive⟩ := h
  by_cases hafter : rest = r.after n (some xs)
  · refine ⟨n + 1, ?_, .inl ?_, ?_⟩
    · rw [hhistory, hafter, Reader.produced_succ, List.append_assoc]
    · rw [hafter, Reader.after_succ]
    · intro hrunning
      rw [(hlive hrunning).1, hafter, (hlive hrunning).1, Reader.after_succ]
      exact ⟨rfl, rfl⟩
  · -- cancelled, so that the turn passes
    obtain rfl := hrest.resolve_left hafter
    refine ⟨n, ?_, .inr rfl, fun hrunning => absurd (hlive hrunning).2 hafter⟩
    rw [hhistory]
    exact List.append_nil _

/-- The reader is cancelled. -/
theorem cancel (h : Fed r xs seed turns running rest history) (hover : ¬ running) :
    Fed r xs seed turns running none history := by
  obtain ⟨n, hhistory, -, -⟩ := h
  exact ⟨n, hhistory, .inr rfl, fun hrunning => absurd hrunning hover⟩

/-- What the queue began with stays in front. -/
theorem seed_first (h : Fed r xs seed turns running rest history) : seed <+: history := by
  obtain ⟨n, hhistory, -, -⟩ := h
  rw [hhistory]
  exact List.prefix_append _ _

/-- What has been put is always a beginning of the whole output. -/
theorem history_prefix (h : Fed r xs seed turns running rest history) :
    history <+: seed ++ r.total xs := by
  obtain ⟨n, hhistory, -, -⟩ := h
  rw [hhistory]
  exact (List.prefix_append_right_inj _).mpr (Reader.produced_prefix n xs)

/-- While nobody cancels it, the reader has had its turns. -/
theorem history_eq (h : Fed r xs seed turns running rest history) (hrunning : running) :
    history = seed ++ r.produced turns (some xs) ∧ rest = r.after turns (some xs) := by
  obtain ⟨n, hhistory, -, hlive⟩ := h
  obtain ⟨rfl, hrest⟩ := hlive hrunning
  exact ⟨hhistory, hrest⟩

/-- A reader that is over, and was not cancelled, has put everything. -/
theorem history_total (h : Fed r xs seed turns running none history) (hrunning : running) :
    history = seed ++ r.total xs := by
  obtain ⟨hhistory, hrest⟩ := h.history_eq hrunning
  rw [hhistory, Reader.produced_eq_total hrest.symm]

/-- What has been put and what the reader would put for the rest is everything. -/
theorem conserved (h : Fed r xs seed turns running rest history) (hrunning : running) :
    history ++ rest.elim [] r.total = seed ++ r.total xs := by
  obtain ⟨hhistory, hrest⟩ := h.history_eq hrunning
  rw [hhistory, hrest, List.append_assoc, Reader.produced_total]

end Fed

end Pipeline
