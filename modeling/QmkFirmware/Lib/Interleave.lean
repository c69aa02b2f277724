import Mathlib

/-!
# Interleavings

A list that two others are mixed into, each in its own order.
-/

namespace QmkFirmware.Lib

variable {A : Type}

/-- The first list has what the other two have, and each of these in its order. -/
inductive Interleaved : List A → List A → List A → Prop
  | nil : Interleaved [] [] []
  | left {z : A} {zs xs ys : List A} : Interleaved zs xs ys → Interleaved (z :: zs) (z :: xs) ys
  | right {z : A} {zs xs ys : List A} : Interleaved zs xs ys → Interleaved (z :: zs) xs (z :: ys)

namespace Interleaved

variable {zs xs ys : List A}

theorem mem (h : Interleaved zs xs ys) {a : A} (mem : a ∈ zs) : a ∈ xs ∨ a ∈ ys := by
  induction h with
  | nil => exact Or.inl mem
  | left _ ih =>
    rcases List.mem_cons.1 mem with rfl | later
    · exact Or.inl List.mem_cons_self
    · exact (ih later).imp_left (List.mem_cons_of_mem _)
  | right _ ih =>
    rcases List.mem_cons.1 mem with rfl | later
    · exact Or.inr List.mem_cons_self
    · exact (ih later).imp_right (List.mem_cons_of_mem _)

end Interleaved

end QmkFirmware.Lib
