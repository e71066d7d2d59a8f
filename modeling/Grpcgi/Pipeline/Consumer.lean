import Mathlib.Data.List.Basic
import Mathlib.Logic.Function.Iterate

/-!
# Consumers of a queue

A queue that remembers what was put into it, and the loop that empties it: take
an item, perhaps put something out, go on or end. Producers may put items at any
time. `Follows` is the invariant of the loop under all interleavings; it says
which stretch of the history the output so far is made of.
-/

namespace Pipeline

variable {α β γ : Type*}

/-- A queue, as its history and the number of items taken. -/
structure Fifo (α : Type*) where
  history : List α
  taken : Nat
  taken_le : taken ≤ history.length
  deriving DecidableEq

namespace Fifo

def empty : Fifo α := ⟨[], 0, Nat.le_refl 0⟩

def put (q : Fifo α) (x : α) : Fifo α where
  history := q.history ++ [x]
  taken := q.taken
  taken_le := by
    rw [List.length_append]
    exact Nat.le_add_right_of_le q.taken_le

/-- The items that were taken. -/
def consumed (q : Fifo α) : List α := q.history.take q.taken

def get? (q : Fifo α) : Option (α × Fifo α) :=
  if h : q.taken < q.history.length then
    some (q.history[q.taken], ⟨q.history, q.taken + 1, h⟩)
  else none

@[simp] theorem history_put (q : Fifo α) (x : α) : (q.put x).history = q.history ++ [x] := rfl

@[simp] theorem consumed_put (q : Fifo α) (x : α) : (q.put x).consumed = q.consumed :=
  List.take_append_of_le_length q.taken_le

theorem consumed_prefix (q : Fifo α) : q.consumed <+: q.history := List.take_prefix _ _

/-- Taking an item moves it behind those already taken and leaves the history. -/
theorem get?_some {q r : Fifo α} {x : α} (h : q.get? = some (x, r)) :
    r.history = q.history ∧ r.consumed = q.consumed ++ [x] := by
  simp only [get?] at h
  split at h
  · rename_i hlt
    obtain ⟨rfl, rfl⟩ := Prod.mk.inj (Option.some.inj h)
    exact ⟨rfl, List.take_succ_eq_append_getElem hlt⟩
  · exact absurd h (by simp)

theorem get?_taken {q r : Fifo α} {x : α} (h : q.get? = some (x, r)) : r.taken = q.taken + 1 := by
  simp only [get?] at h
  split at h
  · obtain ⟨-, rfl⟩ := Prod.mk.inj (Option.some.inj h)
    rfl
  · exact absurd h (by simp)

/-- Several puts. -/
def putAll (q : Fifo α) (xs : List α) : Fifo α := xs.foldl put q

@[simp] theorem history_putAll (q : Fifo α) (xs : List α) :
    (q.putAll xs).history = q.history ++ xs := by
  induction xs generalizing q with
  | nil => exact (List.append_nil _).symm
  | cons x xs ih =>
      have hstep : q.putAll (x :: xs) = (q.put x).putAll xs := rfl
      rw [hstep, ih, history_put, List.append_assoc, List.singleton_append]

@[simp] theorem consumed_putAll (q : Fifo α) (xs : List α) :
    (q.putAll xs).consumed = q.consumed := by
  induction xs generalizing q with
  | nil => rfl
  | cons x xs ih =>
      have hstep : q.putAll (x :: xs) = (q.put x).putAll xs := rfl
      rw [hstep, ih, consumed_put]

/-- Nothing is left exactly when everything put has been taken. -/
theorem get?_eq_none {q : Fifo α} : q.get? = none ↔ q.consumed = q.history := by
  constructor
  · intro h
    simp only [get?] at h
    split at h
    · exact absurd h (by simp)
    · rename_i hge
      exact List.take_of_length_le (Nat.le_of_not_lt hge)
  · intro h
    have hlen : q.taken = q.history.length := by
      rw [← congrArg List.length h, consumed, List.length_take, Nat.min_eq_left q.taken_le]
    rw [get?, dif_neg (by omega)]

end Fifo

/-- The items up to and including the first one that is marked. -/
def through (p : α → Bool) : List α → List α
  | [] => []
  | x :: xs => if p x then [x] else x :: through p xs

theorem through_unmarked_append {p : α → Bool} {xs : List α} (h : ∀ x ∈ xs, p x = false)
    (ys : List α) : through p (xs ++ ys) = xs ++ through p ys := by
  induction xs with
  | nil => rfl
  | cons x xs ih =>
      obtain ⟨hx, hxs⟩ := List.forall_mem_cons.mp h
      simp only [List.cons_append, through, hx, Bool.false_eq_true, if_false, ih hxs]

theorem through_of_unmarked {p : α → Bool} {xs : List α} (h : ∀ x ∈ xs, p x = false) :
    through p xs = xs := by
  have hthrough := through_unmarked_append h []
  rwa [List.append_nil, through, List.append_nil] at hthrough

theorem through_append {p : α → Bool} {xs : List α} {x : α} (h : ∀ y ∈ xs, p y = false)
    (hx : p x = true) (ys : List α) : through p (xs ++ x :: ys) = xs ++ [x] := by
  rw [through_unmarked_append h, through, if_pos hx]

/-- What follows unmarked elements is in the cut, marked or not. -/
theorem mem_through {p : α → Bool} {xs : List α} (h : ∀ y ∈ xs, p y = false) (x : α)
    (ys : List α) : x ∈ through p (xs ++ x :: ys) := by
  rw [through_unmarked_append h, through]
  split
  · exact List.mem_append_right xs (List.mem_singleton_self x)
  · exact List.mem_append_right xs List.mem_cons_self

/-- How a loop ends: at its own wish or by an exception. -/
inductive End where
  | stopped
  | raised
  deriving DecidableEq, Repr

/-- A loop over a queue. -/
structure Consumer (α β : Type*) where
  queue : Fifo α := .empty
  output : List β := []
  ended : Option End := none
  deriving DecidableEq

namespace Consumer

/-- Somebody puts an item. -/
def put (c : Consumer α β) (x : α) : Consumer α β := { c with queue := c.queue.put x }

/-- One turn of the loop, whose body says what to put out and whether to end.
With the queue empty, the loop waits. -/
def step (body : α → Option β × Option End) (c : Consumer α β) : Consumer α β :=
  match c.ended, c.queue.get? with
  | none, some (x, queue) =>
    { queue, output := c.output ++ (body x).1.toList, ended := (body x).2 }
  | _, _ => c

/-- What holds between the turns: the output is that of the items taken, and the
loop has ended at the last of them if at all. -/
structure Follows (body : α → Option β × Option End) (c : Consumer α β) : Prop where
  output_eq : c.output = c.queue.consumed.filterMap fun x => (body x).1
  running : c.ended = none → ∀ x ∈ c.queue.consumed, (body x).2 = none
  ended_at : ∀ e, c.ended = some e → ∃ before x, c.queue.consumed = before ++ [x] ∧
    (∀ y ∈ before, (body y).2 = none) ∧ (body x).2 = some e

variable {body : α → Option β × Option End} {c : Consumer α β}

theorem follows_empty : Follows body ({} : Consumer α β) where
  output_eq := rfl
  running := fun _ x hx => absurd hx List.not_mem_nil
  ended_at := fun _ h => absurd h (by simp)

/-- A put changes nothing that the loop has done. -/
theorem Follows.put (h : Follows body c) (x : α) : Follows body (c.put x) where
  output_eq := by
    simp only [Consumer.put, Fifo.consumed_put]
    exact h.output_eq
  running := by
    simp only [Consumer.put, Fifo.consumed_put]
    exact h.running
  ended_at := by
    simp only [Consumer.put, Fifo.consumed_put]
    exact h.ended_at

/-- What a turn can be: nothing, or one item taken. -/
theorem step_cases (body : α → Option β × Option End) (c : Consumer α β) :
    step body c = c ∨ c.ended = none ∧ ∃ x queue, c.queue.get? = some (x, queue) ∧
      step body c = { queue, output := c.output ++ (body x).1.toList, ended := (body x).2 } := by
  simp only [step]
  split
  · rename_i x queue hended hget
    exact .inr ⟨hended, x, queue, hget, rfl⟩
  · exact .inl rfl

theorem Follows.step (h : Follows body c) : Follows body (step body c) := by
  obtain heq | ⟨hended, x, queue, hget, heq⟩ := step_cases body c
  · rw [heq]
    exact h
  · obtain ⟨-, hconsumed⟩ := Fifo.get?_some hget
    have hbefore := h.running hended
    rw [heq]
    constructor
    · simp only [hconsumed, List.filterMap_append, h.output_eq]
      cases hout : (body x).1 <;> simp [hout]
    · intro hgo y hy
      rw [hconsumed] at hy
      obtain hy | hy := List.mem_append.mp hy
      · exact hbefore y hy
      · rw [List.mem_singleton.mp hy]
        exact hgo
    · intro e hend
      exact ⟨c.queue.consumed, x, hconsumed, hbefore, hend⟩

/-- A turn depends on the body's answer for the items of the queue only. -/
theorem step_congr {body' : α → Option β × Option End}
    (h : ∀ x ∈ c.queue.history, body x = body' x) :
    Consumer.step body c = Consumer.step body' c := by
  simp only [Consumer.step]
  split
  · rename_i x queue _ hget
    obtain ⟨hhistory, hconsumed⟩ := Fifo.get?_some hget
    have hx : x ∈ c.queue.history := by
      rw [← hhistory]
      apply queue.consumed_prefix.subset
      rw [hconsumed]
      exact List.mem_append_right _ (List.mem_singleton_self x)
    rw [h x hx]
  · rfl

@[simp] theorem step_history (body : α → Option β × Option End) (c : Consumer α β) :
    (Consumer.step body c).queue.history = c.queue.history := by
  obtain heq | ⟨-, x, queue, hget, heq⟩ := step_cases body c
  · rw [heq]
  · rw [heq]
    exact (Fifo.get?_some hget).1

/-- A loop that has ended lets its turns pass. -/
theorem step_of_ended (h : c.ended.isSome) : Consumer.step body c = c := by
  obtain ⟨e, he⟩ := Option.isSome_iff_exists.mp h
  simp only [Consumer.step, he]

/-- A loop still going has not taken an item that ends it, so one is left. -/
theorem Follows.exists_get? (h : Follows body c) (hrunning : c.ended = none) {x : α}
    (hx : x ∈ c.queue.history) (hmark : (body x).2 ≠ none) : ∃ y r, c.queue.get? = some (y, r) := by
  cases hget : c.queue.get? with
  | some p => exact ⟨p.1, p.2, rfl⟩
  | none =>
      rw [← Fifo.get?_eq_none.mp hget] at hx
      exact absurd (h.running hrunning x hx) hmark

/-- The loop ends within as many turns as there are items left, if one of the
items put so far ends it. -/
theorem Follows.ends (h : Follows body c) {x : α} (hx : x ∈ c.queue.history)
    (hmark : (body x).2 ≠ none) {n : Nat} (hn : c.queue.history.length ≤ c.queue.taken + n) :
    ((Consumer.step body)^[n] c).ended.isSome := by
  induction n generalizing c with
  | zero =>
      rw [Function.iterate_zero_apply, ← Option.not_isNone, Bool.not_eq_true']
      by_contra hnone
      have hrunning : c.ended = none := Option.isNone_iff_eq_none.mp (by simpa using hnone)
      obtain ⟨y, r, hget⟩ := h.exists_get? hrunning hx hmark
      have hall : c.queue.consumed = c.queue.history := List.take_of_length_le hn
      rw [Fifo.get?_eq_none.mpr hall] at hget
      exact absurd hget (by simp)
  | succ n ih =>
      by_cases hended : c.ended.isSome
      · rw [Function.iterate_fixed (step_of_ended hended)]
        exact hended
      · have hrunning : c.ended = none := Option.not_isSome_iff_eq_none.mp hended
        obtain ⟨y, r, hget⟩ := h.exists_get? hrunning hx hmark
        have htaken : (Consumer.step body c).queue.taken = c.queue.taken + 1 := by
          simp only [Consumer.step, hrunning, hget, Fifo.get?_taken hget]
        rw [Function.iterate_succ_apply]
        refine ih h.step (by rwa [step_history]) ?_
        rw [step_history, htaken]
        omega

end Consumer

end Pipeline
