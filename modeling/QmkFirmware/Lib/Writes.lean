import Mathlib

/-!
# Sequences of single writes

A write puts a value into one cell of a memory, and `store` makes a list of them. What a cell
holds afterwards is what the last write to it has put there, or what was there before. The
rules are about cutting such a list somewhere: a cell that the rest does not touch has its
last value already.
-/

namespace QmkFirmware.Lib

variable {α : Type}

/-- The memory after the writes. -/
def store (m : Nat → α) (writes : List (Nat × α)) : Nat → α :=
  writes.foldl (fun m w => Function.update m w.1 w.2) m

/-- The writes that put a list into the cells from `a` on, one after the other. -/
def block (a : Nat) : List α → List (Nat × α)
  | [] => []
  | v :: l => (a, v) :: block (a + 1) l

/-- The cells that are written. -/
def cells (writes : List (Nat × α)) : List Nat := writes.map Prod.fst

variable {m m' : Nat → α} {a : Nat} {v : α} {l : List α} {writes rest : List (Nat × α)}

@[simp] theorem store_nil : store m [] = m := rfl

@[simp] theorem store_cons {w : Nat × α} : store m (w :: writes) = store (Function.update m w.1 w.2) writes := rfl

theorem store_append : store m (writes ++ rest) = store (store m writes) rest := List.foldl_append

@[simp] theorem cells_append : cells (writes ++ rest) = cells writes ++ cells rest := List.map_append

theorem mem_cells : a ∈ cells writes ↔ ∃ w ∈ writes, w.1 = a := List.mem_map

/-! ## What a cell holds -/

theorem store_of_not_mem (free : a ∉ cells writes) : store m writes a = m a := by
  induction writes generalizing m with
  | nil => rfl
  | cons w writes ih =>
    obtain ⟨here, later⟩ := List.ne_and_not_mem_of_not_mem_cons free
    rw [store_cons, ih later, Function.update_of_ne here]

/-- A cell that is written does not depend on the memory before. -/
theorem store_of_mem (written : a ∈ cells writes) : store m writes a = store m' writes a := by
  induction writes generalizing m m' with
  | nil => contradiction
  | cons w writes ih =>
    by_cases later : a ∈ cells writes
    · exact ih later
    · have here : a = w.1 := (List.mem_cons.1 written).resolve_right later
      rw [store_cons, store_cons, store_of_not_mem later, store_of_not_mem later, here, Function.update_self, Function.update_self]

/-- A cell into which nothing but `v` is written. -/
theorem store_const (written : a ∈ cells writes) (same : ∀ w ∈ writes, w.1 = a → w.2 = v) : store m writes a = v := by
  induction writes generalizing m with
  | nil => contradiction
  | cons w writes ih =>
    by_cases later : a ∈ cells writes
    · exact ih later fun w' mem => same w' (List.mem_cons_of_mem w mem)
    · have here : a = w.1 := (List.mem_cons.1 written).resolve_right later
      rw [store_cons, store_of_not_mem later, here, Function.update_self]
      exact same w List.mem_cons_self here.symm

/-- A cell that holds `v` keeps it when nothing else is written into it. -/
theorem store_keep (held : m a = v) (same : ∀ w ∈ writes, w.1 = a → w.2 = v) : store m writes a = v := by
  by_cases written : a ∈ cells writes
  · exact store_const written same
  · rw [store_of_not_mem written, held]

/-! ## Blocks -/

theorem length_block : (block a l).length = l.length := by
  induction l generalizing a with
  | nil => rfl
  | cons v l ih => rw [block, List.length_cons, List.length_cons, ih]

theorem mem_block {w : Nat × α} (mem : w ∈ block a l) : a ≤ w.1 ∧ w.1 < a + l.length := by
  induction l generalizing a with
  | nil => contradiction
  | cons v l ih =>
    rw [List.length_cons]
    rcases List.mem_cons.1 mem with here | later
    · subst here
      exact ⟨Nat.le_refl a, by omega⟩
    · have := ih later
      exact ⟨by omega, by omega⟩

/-- A block writes no cell twice. -/
theorem block_increasing : (block a l).Pairwise fun w w' => w.1 < w'.1 := by
  induction l generalizing a with
  | nil => exact List.Pairwise.nil
  | cons v l ih =>
    refine List.Pairwise.cons (fun w mem => ?_) ih
    exact (mem_block mem).1

end QmkFirmware.Lib
