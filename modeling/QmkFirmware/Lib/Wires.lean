import Mathlib

/-!
# Lines that are joined by contacts

A grid has lines of two kinds, and a contact joins a line of the one kind to a line of
the other. Without diodes a contact joins them both ways, so a line is joined to every
line that some chain of contacts leads to. `Joined.corner` says what a chain looks like
that no contact of its own stands for: two lines share a contact with a third.
-/

namespace QmkFirmware.Lib
open Relation

variable {R C : Type} {closed : R → C → Prop}

/-- The lines of a contact, from either side -/
inductive Meets (closed : R → C → Prop) : R ⊕ C → R ⊕ C → Prop
  | across {r : R} {c : C} : closed r c → Meets closed (.inl r) (.inr c)
  | back {r : R} {c : C} : closed r c → Meets closed (.inr c) (.inl r)

theorem Meets.symm {a b : R ⊕ C} (h : Meets closed a b) : Meets closed b a := by
  cases h with
  | across h => exact .back h
  | back h => exact .across h

theorem Meets.iff {a b : R ⊕ C} : Meets closed a b ↔ Meets closed b a := ⟨Meets.symm, Meets.symm⟩

/-- A chain of contacts leads from the line `r` to the line `c`. -/
def Joined (closed : R → C → Prop) (r : R) (c : C) : Prop := ReflTransGen (Meets closed) (.inl r) (.inr c)

namespace Joined

theorem of_closed {r : R} {c : C} (h : closed r c) : Joined closed r c := ReflTransGen.single (.across h)

/-- What a chain that ends at `c` says of the line that it starts from: of a line `r` that `c` is a contact of, or that shares a
contact with another line that is joined to `c`. -/
def Cornered (closed : R → C → Prop) (c : C) (r : R) : Prop :=
  closed r c ∨ ∃ r' c', r' ≠ r ∧ c' ≠ c ∧ closed r c' ∧ closed r' c' ∧ Joined closed r' c

/-- A line that a line with the contact `c'` is joined through. -/
theorem cornered_through {r r' : R} {c c' : C} (near : closed r c') (far : closed r' c') (joined : Joined closed r' c)
    (h : Cornered closed c r') : Cornered closed c r := by
  by_cases same : r' = r
  · exact same ▸ h
  · by_cases here : c' = c
    · exact Or.inl (here ▸ near)
    · exact Or.inr ⟨r', c', same, here, near, far, joined⟩

/-- The induction is on the chain from its head, for lines of both kinds. -/
theorem cornered {r : R} {c : C} (h : Joined closed r c) : Cornered closed c r := by
  have both : ∀ a, ReflTransGen (Meets closed) a (.inr c) → Sum.elim (Cornered closed c) (fun c' => ∀ r, closed r c' → Cornered closed c r) a := by
    intro a chain
    induction chain using ReflTransGen.head_induction_on with
    | refl => exact fun r h => Or.inl h
    | head step rest ih =>
      cases step with
      | across here => exact ih _ here
      | back here => exact fun r near => cornered_through near here rest ih
  exact both _ h

/-- **The corner of a false contact**: lines that are joined though no contact joins them share a column with another row that
is joined to the same column. -/
theorem corner {r : R} {c : C} (h : Joined closed r c) (apart : ¬ closed r c) :
    ∃ r' c', r' ≠ r ∧ c' ≠ c ∧ closed r c' ∧ closed r' c' ∧ Joined closed r' c := by
  rcases h.cornered with here | there
  · exact absurd here apart
  · exact there

end Joined

end QmkFirmware.Lib
