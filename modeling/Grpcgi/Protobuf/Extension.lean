import Grpcgi.Protobuf.Wire

/-!
# Messages of a later schema

A later version of a schema may add fields. `Extends` says that one message is
another with fields inserted that the older schema does not know. A reader that
takes the fields it knows by number sees no difference.
-/

namespace Protobuf

variable {same : Field → Field → Prop} {unknown : Nat → Prop}

/-- The second message is the first with unknown fields inserted. `same` says which
changes a field may undergo where it stands, for fields that are messages themselves. -/
inductive Extends (same : Field → Field → Prop) (unknown : Nat → Prop) :
    List Field → List Field → Prop where
  | nil : Extends same unknown [] []
  | keep {f g : Field} {fields more : List Field} (h : same f g)
      (rest : Extends same unknown fields more) : Extends same unknown (f :: fields) (g :: more)
  | insert {g : Field} {fields more : List Field} (h : unknown g.number)
      (rest : Extends same unknown fields more) : Extends same unknown fields (g :: more)

namespace Extends

theorem refl (hrefl : ∀ f, same f f) (fields : List Field) :
    Extends same unknown fields fields := by
  induction fields with
  | nil => exact .nil
  | cons f fields ih => exact .keep (hrefl f) ih

/-- A reader that finds nothing in an unknown field reads the same. -/
theorem filterMap_eq {α : Type*} {pick : Field → Option α} {fields more : List Field}
    (h : Extends same unknown fields more) (hsame : ∀ f g, same f g → pick g = pick f)
    (hunknown : ∀ g, unknown g.number → pick g = none) :
    more.filterMap pick = fields.filterMap pick := by
  induction h with
  | nil => rfl
  | keep hkeep _ ih =>
      rw [List.filterMap_cons, List.filterMap_cons, hsame _ _ hkeep, ih]
  | insert hnew _ ih => rw [List.filterMap_cons_none (hunknown _ hnew), ih]

/-- A reader of one known field reads the same, if that field stays as it is. -/
theorem filterMap_known {α : Type*} {number : Nat} {pick : Field → Option α}
    {fields more : List Field} (h : Extends same unknown fields more)
    (hpick : ∀ f, f.number ≠ number → pick f = none)
    (hsame : ∀ f g, same f g → g = f ∨ f.number ≠ number ∧ g.number ≠ number)
    (hknown : ¬ unknown number) : more.filterMap pick = fields.filterMap pick := by
  apply h.filterMap_eq
  · intro f g hkeep
    obtain rfl | ⟨hf, hg⟩ := hsame f g hkeep
    · rfl
    · rw [hpick f hf, hpick g hg]
  · intro g hnew
    apply hpick
    rintro rfl
    exact hknown hnew

section Known

variable {number : Nat} {fields more : List Field} (h : Extends same unknown fields more)
  (hsame : ∀ f g, same f g → g = f ∨ f.number ≠ number ∧ g.number ≠ number)
  (hknown : ¬ unknown number)

include h hsame hknown

theorem varints_eq : varints number more = varints number fields := by
  apply h.filterMap_known _ hsame hknown
  intro f hf
  simp only [if_neg hf]
  cases f.value <;> rfl

theorem lens_eq : lens number more = lens number fields := by
  apply h.filterMap_known _ hsame hknown
  intro f hf
  simp only [if_neg hf]
  cases f.value <;> rfl

end Known

end Extends

/-- The data of a field is part of the message it was read from. -/
theorem length_data_parse {bs : List UInt8} {fields : List Field} (h : parse bs = some fields) :
    ∀ f ∈ fields, ∀ data, f.value = .len data → data.length ≤ bs.length := by
  apply parse_induct h
    (motive := fun _ fields => ∀ f ∈ fields, ∀ data, f.value = .len data → data.length ≤ bs.length)
  · intro i _ f hf
    cases hf
  · intro i f size rest _ hread _ _ ih
    refine List.forall_mem_cons.mpr ⟨?_, ih⟩
    intro data hdata
    obtain ⟨tag, n, m, -, -, hvalue, -⟩ := readField_cases hread
    rw [hdata] at hvalue
    obtain ⟨-, v, hkind, -⟩ | ⟨-, ⟨v, hkind⟩, -⟩ | ⟨-, length, k, -, hkind, -⟩ |
      ⟨-, ⟨v, hkind⟩, -⟩ := readValue_cases hvalue
    · cases hkind
    · cases hkind
    · cases hkind
      simp only [List.length_take, List.length_drop]
      omega
    · cases hkind

end Protobuf
