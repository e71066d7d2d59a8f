import Mathlib.Logic.Basic

/-!
# Loops that move a position

A decoder of a whole buffer is a loop over a position: while it is inside the
buffer, one step fails, stops with a result, or goes on from another position with
another state. `Loop.run` bounds the iterations; a loop whose position climbs needs
no more than the buffer has positions (`run_of_sound`). Where the position moves
without regard to the state, `Walk` is the loop seen through its positions.
-/

namespace Cursor

variable {ε σ ρ : Type*}

inductive Outcome (ε σ ρ : Type*) where
  | fail (error : ε)
  | stop (result : ρ)
  | next (pos : Nat) (state : σ)

/-- `while pos < size { step }`, with `endless` for a loop that does not end. -/
structure Loop (ε σ ρ : Type*) where
  size : Nat
  step : Nat → σ → Outcome ε σ ρ
  finish : σ → ρ
  endless : ε

namespace Loop

variable (l : Loop ε σ ρ)

def run : Nat → Nat → σ → Except ε ρ
  | 0, _, _ => .error l.endless
  | fuel + 1, i, s =>
    if i < l.size then
      match l.step i s with
      | .fail e => .error e
      | .stop r => .ok r
      | .next j t => run fuel j t
    else .ok (l.finish s)

/-- The positions and states that the loop comes to. -/
inductive Reaches (i : Nat) (s : σ) : Nat → σ → Prop where
  | start : Reaches i s i s
  | next {j t k u} (h : Reaches i s j t) (inside : j < l.size) (step : l.step j t = .next k u) :
      Reaches i s k u

/-- Every iteration moves the position up. -/
def Climbs (i : Nat) (s : σ) : Prop :=
  ∀ j t k u, l.Reaches i s j t → j < l.size → l.step j t = .next k u → j < k

/-- No iteration fails. -/
def Sound (i : Nat) (s : σ) : Prop :=
  ∀ j t e, l.Reaches i s j t → j < l.size → l.step j t ≠ .fail e

variable {l} {i : Nat} {s : σ}

/-- One iteration earlier. -/
theorem Reaches.head {j k : Nat} {t u : σ} (hi : i < l.size) (hstep : l.step i s = .next j t)
    (h : l.Reaches j t k u) : l.Reaches i s k u := by
  induction h with
  | start => exact .next .start hi hstep
  | next _ inside step ih => exact .next ih inside step

/-- A loop that returns returns from every state it comes to. -/
theorem run_reaches {fuel j : Nat} {t : σ} {r : ρ} (h : l.run fuel i s = .ok r)
    (hreach : l.Reaches i s j t) : ∃ fuel, l.run fuel j t = .ok r := by
  induction hreach with
  | start => exact ⟨fuel, h⟩
  | next _ inside step ih =>
      obtain ⟨fuel, hrun⟩ := ih
      cases fuel with
      | zero => cases hrun
      | succ fuel =>
          rw [run, if_pos inside, step] at hrun
          exact ⟨fuel, hrun⟩

theorem sound_of_run {fuel : Nat} {r : ρ} (h : l.run fuel i s = .ok r) : l.Sound i s := by
  intro j t e hreach hj hfail
  obtain ⟨fuel, hrun⟩ := run_reaches h hreach
  cases fuel with
  | zero => cases hrun
  | succ fuel =>
      rw [run, if_pos hj, hfail] at hrun
      cases hrun

/-- A loop that climbs ends, and it returns if no iteration fails. -/
theorem run_of_sound {fuel : Nat} (hclimbs : l.Climbs i s) (hsound : l.Sound i s)
    (hfuel : l.size - i < fuel) : ∃ r, l.run fuel i s = .ok r := by
  induction fuel generalizing i s with
  | zero => exact absurd hfuel (Nat.not_lt_zero _)
  | succ fuel ih =>
      rw [run]
      by_cases hi : i < l.size
      · rw [if_pos hi]
        cases hstep : l.step i s with
        | fail e => exact absurd hstep (hsound i s e .start hi)
        | stop r => exact ⟨r, rfl⟩
        | next j t =>
            have hlt := hclimbs i s j t .start hi hstep
            refine ih ?_ ?_ (by omega)
            · intro k u k' u' hreach
              exact hclimbs k u k' u' (hreach.head hi hstep)
            · intro k u e hreach
              exact hsound k u e (hreach.head hi hstep)
      · rw [if_neg hi]
        exact ⟨_, rfl⟩

end Loop

/-- The positions that a loop comes to from the start of its buffer, when `goes` says
where it moves from each. -/
inductive Walk (size : Nat) (goes : Nat → Option Nat) : Nat → Prop where
  | start : Walk size goes 0
  | step {i j} (h : Walk size goes i) (inside : i < size) (moves : goes i = some j) :
      Walk size goes j

/-- The position moves as `goes` says, unless a step fails. -/
def Loop.Follows (l : Loop ε σ ρ) (goes : Nat → Option Nat) : Prop :=
  ∀ i s, i < l.size →
    match l.step i s with
    | .fail _ => True
    | .stop _ => goes i = none
    | .next j _ => goes i = some j

variable {l : Loop ε σ ρ} {goes : Nat → Option Nat} {s : σ}

theorem Loop.Follows.walk (hfollows : l.Follows goes) {i : Nat} {t : σ}
    (h : l.Reaches 0 s i t) : Walk l.size goes i := by
  induction h with
  | start => exact .start
  | @next j t k u _ inside step ih =>
      have hnext := hfollows j t inside
      rw [step] at hnext
      exact .step ih inside hnext

/-- Where no step fails the loop comes to every position of the walk. -/
theorem Loop.Follows.reaches (hfollows : l.Follows goes) (hsound : l.Sound 0 s) {i : Nat}
    (h : Walk l.size goes i) : ∃ t, l.Reaches 0 s i t := by
  induction h with
  | start => exact ⟨s, .start⟩
  | @step i j _ inside hnext ih =>
      obtain ⟨t, hreach⟩ := ih
      have hstep := hfollows i t inside
      cases h : l.step i t with
      | fail e => exact absurd h (hsound i t e hreach inside)
      | stop r =>
          rw [h] at hstep
          rw [hstep] at hnext
          cases hnext
      | next k u =>
          rw [h] at hstep
          rw [hstep] at hnext
          cases hnext
          exact ⟨u, .next hreach inside h⟩

/-- When a loop returns with `Q` true of every iteration, and `Q` makes it climb: what
one iteration needs, it needs at every position of the walk. -/
theorem Loop.Follows.safe_iff (hfollows : l.Follows goes) {Q : Nat → σ → Prop} {Good : Nat → Prop}
    (hclimb : ∀ i t j u, i < l.size → Q i t → l.step i t = .next j u → i < j)
    (hgood : ∀ i t, i < l.size → (((∀ e, l.step i t ≠ .fail e) ∧ Q i t) ↔ Good i))
    {fuel : Nat} (hfuel : l.size < fuel) :
    ((∃ r, l.run fuel 0 s = .ok r) ∧ ∀ i t, l.Reaches 0 s i t → i < l.size → Q i t) ↔
      ∀ i, Walk l.size goes i → i < l.size → Good i := by
  constructor
  · rintro ⟨⟨r, hrun⟩, hQ⟩ i hwalk hi
    have hsound := Loop.sound_of_run hrun
    obtain ⟨t, hreach⟩ := hfollows.reaches hsound hwalk
    exact (hgood i t hi).mp ⟨fun e => hsound i t e hreach hi, hQ i t hreach hi⟩
  · intro hall
    have hmeets : ∀ i t, l.Reaches 0 s i t → i < l.size →
        (∀ e, l.step i t ≠ .fail e) ∧ Q i t := fun i t hreach hi =>
      (hgood i t hi).mpr (hall i (hfollows.walk hreach) hi)
    refine ⟨Loop.run_of_sound ?_ ?_ hfuel, fun i t hreach hi => (hmeets i t hreach hi).2⟩
    · intro i t j u hreach hi hstep
      exact hclimb i t j u hi (hmeets i t hreach hi).2 hstep
    · intro i t e hreach hi
      exact (hmeets i t hreach hi).1 e

end Cursor
