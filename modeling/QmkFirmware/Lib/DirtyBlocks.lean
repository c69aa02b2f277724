import Mathlib

/-!
# A copy kept by dirty blocks

A source is drawn into, and a copy of it, behind a link that can fail, is brought up to date
block by block. `Coherent` says that whatever differs lies in a block that is marked. The
rules say what drawing, a block that is sent and a block that is sent only in part do to it.
-/

namespace QmkFirmware.Lib

variable {ι α : Type}

/-- What differs between the source and the copy is in a dirty block. -/
def Coherent (block : ι → Nat) (dirty : Nat → Prop) (source shown : ι → α) : Prop :=
  ∀ i, source i ≠ shown i → dirty (block i)

namespace Coherent

variable {block : ι → Nat} {dirty dirty' : Nat → Prop} {source source' shown shown' : ι → α} {b : Nat}

/-- All is dirty. -/
theorem all (h : ∀ i, dirty (block i)) : Coherent block dirty source shown := fun i _ => h i

/-- Without a dirty block the copy is the source. -/
theorem clean (h : Coherent block dirty source shown) (none : ∀ b, ¬ dirty b) : shown = source := by
  funext i
  by_contra differs
  exact none _ (h i fun same => differs same.symm)

/-- What is drawn over is marked. -/
theorem draw (h : Coherent block dirty source shown) (kept : ∀ b, dirty b → dirty' b)
    (marked : ∀ i, source' i ≠ source i → dirty' (block i)) : Coherent block dirty' source' shown := by
  intro i differs
  by_cases same : source' i = source i
  · exact kept _ (h i (same ▸ differs))
  · exact marked i same

/-- A transfer that was cut short leaves every place as it was or as it should be. -/
theorem part (h : Coherent block dirty source shown) (sent : ∀ i, shown' i = shown i ∨ shown' i = source i) :
    Coherent block dirty source shown' := by
  intro i differs
  rcases sent i with same | now
  · exact h i (same ▸ differs)
  · exact absurd now.symm differs

/-- A block that was sent is clean. -/
theorem send (h : Coherent block dirty source shown) (sent : ∀ i, block i = b → shown' i = source i)
    (other : ∀ i, block i ≠ b → shown' i = shown i) (kept : ∀ b', b' ≠ b → dirty b' → dirty' b') :
    Coherent block dirty' source shown' := by
  intro i differs
  by_cases here : block i = b
  · exact absurd (sent i here).symm differs
  · exact kept _ here (h i (other i here ▸ differs))

end Coherent

end QmkFirmware.Lib
