import Grpcgi.Incremental.Decoder

/-!
# The iterations of a scan

`Decoder.steps` lists what a scan takes off its buffer, iteration by iteration. The pieces
and what the scan leaves are the buffer: a scan drops nothing.
-/

namespace Incremental

/-- One iteration: the state it begins in, the item, and the piece of the buffer that holds
the item. -/
structure Step (β α σ : Type*) where
  before : σ
  item : α
  taken : List β

/-- What a scan leaves. -/
def Exit.left {β ε : Type*} : Exit β ε → List β
  | .rest bytes => bytes
  | .stopped bytes => bytes
  | .fault _ bytes => bytes

namespace Decoder

variable {β ε α σ : Type*} (d : Decoder β ε α) (act : σ → α → σ × Bool)

def stepsFuel : Nat → σ → List β → List (Step β α σ)
  | 0, _, _ => []
  | fuel + 1, s, bs =>
    match d.attempt bs with
    | .more => []
    | .fault _ => []
    | .item a n =>
      match act s a with
      | (t, true) => ⟨s, a, bs.take n⟩ :: stepsFuel fuel t (bs.drop n)
      | (_, false) => [⟨s, a, bs.take n⟩]

/-- The iterations of `scan`. -/
def steps (s : σ) (bs : List β) : List (Step β α σ) := d.stepsFuel act bs.length s bs

variable {d} {act}

theorem steps_more {bs : List β} (s : σ) (h : d.attempt bs = .more) : d.steps act s bs = [] := by
  cases bs with
  | nil => rfl
  | cons b bs =>
      show d.stepsFuel act (bs.length + 1) s (b :: bs) = []
      simp only [stepsFuel, h]

/-- Every element is part of an item or left over. -/
theorem steps_taken (s : σ) (bs : List β) :
    (d.steps act s bs).flatMap Step.taken ++ (d.scan act s bs).2.left = bs := by
  rw [steps, scan]
  generalize bs.length = fuel
  induction fuel generalizing s bs with
  | zero => rfl
  | succ fuel ih =>
      cases ha : d.attempt bs with
      | more =>
          simp only [stepsFuel, scanFuel, ha]
          rfl
      | fault e =>
          simp only [stepsFuel, scanFuel, ha]
          rfl
      | item a n =>
          rcases hact : act s a with ⟨t, _ | _⟩
          · simp only [stepsFuel, scanFuel, ha, hact, List.flatMap_singleton]
            exact List.take_append_drop n bs
          · simp only [stepsFuel, scanFuel, ha, hact, List.flatMap_cons, List.append_assoc, ih]
            exact List.take_append_drop n bs

/-- A scan that stopped did so in its last iteration. -/
theorem steps_stopped {s t : σ} {bs r : List β} (h : d.scan act s bs = (t, .stopped r)) :
    ∃ init step, d.steps act s bs = init ++ [step] ∧
      (∀ step ∈ init, (act step.before step.item).2 = true) ∧
      act step.before step.item = (t, false) := by
  rw [scan] at h
  rw [steps]
  generalize bs.length = fuel at h ⊢
  induction fuel generalizing s bs with
  | zero => cases h
  | succ fuel ih =>
      cases ha : d.attempt bs with
      | more =>
          simp only [scanFuel, ha] at h
          cases h
      | fault e =>
          simp only [scanFuel, ha] at h
          cases h
      | item a n =>
          rcases hact : act s a with ⟨u, _ | _⟩
          · simp only [scanFuel, ha, hact] at h
            cases h
            simp only [stepsFuel, ha, hact]
            exact ⟨[], _, rfl, fun _ hmem => absurd hmem List.not_mem_nil, hact⟩
          · simp only [scanFuel, ha, hact] at h
            simp only [stepsFuel, ha, hact]
            obtain ⟨init, step, hsteps, hinit, hlast⟩ := ih h
            have hfirst : (act s a).2 = true := by rw [hact]
            exact ⟨_ :: init, step, by rw [hsteps, List.cons_append],
              List.forall_mem_cons.mpr ⟨hfirst, hinit⟩, hlast⟩

/-- A scan that came to the end of what it can read went on after every item. -/
theorem steps_rest {s t : σ} {bs r : List β} (h : d.scan act s bs = (t, .rest r)) :
    ∀ step ∈ d.steps act s bs, (act step.before step.item).2 = true := by
  rw [scan] at h
  rw [steps]
  generalize bs.length = fuel at h ⊢
  induction fuel generalizing s bs with
  | zero => exact fun step hmem => absurd hmem List.not_mem_nil
  | succ fuel ih =>
      cases ha : d.attempt bs with
      | more =>
          simp only [stepsFuel, ha]
          exact fun step hmem => absurd hmem List.not_mem_nil
      | fault e =>
          simp only [stepsFuel, ha]
          exact fun step hmem => absurd hmem List.not_mem_nil
      | item a n =>
          rcases hact : act s a with ⟨u, _ | _⟩
          · simp only [scanFuel, ha, hact] at h
            cases h
          · simp only [scanFuel, ha, hact] at h
            simp only [stepsFuel, ha, hact]
            have hfirst : (act s a).2 = true := by rw [hact]
            exact List.forall_mem_cons.mpr ⟨hfirst, ih h⟩

end Decoder
end Incremental
