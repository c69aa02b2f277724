import Mathlib

/-!
# Ring buffers

A fixed number of slots with a head and a tail, one slot always free. The ring
holds a list; adding refuses when it is full.
-/

namespace QmkFirmware.Lib

/-- The slots from `tail` up to `head`, around the end, are in use. -/
structure Ring (size : Nat) (α : Type) where
  slots : Nat → α
  head : Nat
  tail : Nat
  head_lt : head < size
  tail_lt : tail < size

namespace Ring

variable {size : Nat} {α : Type}

/-- Nothing is in use; the slots hold `a`. -/
def empty (h : 0 < size) (a : α) : Ring size α := ⟨fun _ => a, 0, 0, h, h⟩

def isEmpty (r : Ring size α) : Bool := r.head = r.tail

theorem size_pos (r : Ring size α) : 0 < size := Nat.zero_lt_of_lt r.head_lt

/-- The ring with one more. -/
def pushed (r : Ring size α) (a : α) : Ring size α :=
  ⟨Function.update r.slots r.head a, (r.head + 1) % size, r.tail, Nat.mod_lt _ r.size_pos, r.tail_lt⟩

/-- The ring without the oldest. -/
def popped (r : Ring size α) : Ring size α :=
  ⟨r.slots, r.head, (r.tail + 1) % size, r.head_lt, Nat.mod_lt _ r.size_pos⟩

/-- Nothing where the ring is full -/
def enqueue (r : Ring size α) (a : α) : Option (Ring size α) :=
  if (r.head + 1) % size = r.tail then none else some (r.pushed a)

/-- Nothing where the ring is empty -/
def dequeue (r : Ring size α) : Option (α × Ring size α) :=
  if r.head = r.tail then none else some (r.slots r.tail, r.popped)

/-- The ring with head and tail at the start. -/
def cleared (r : Ring size α) : Ring size α := ⟨r.slots, 0, 0, r.size_pos, r.size_pos⟩

/-- The number of slots in use -/
def count (r : Ring size α) : Nat := if r.tail ≤ r.head then r.head - r.tail else r.head + size - r.tail

/-- The slot `i` places behind the tail -/
def index (r : Ring size α) (i : Nat) : Nat := if r.tail + i < size then r.tail + i else r.tail + i - size

/-- What the ring holds, the oldest first -/
def contents (r : Ring size α) : List α := (List.range r.count).map fun i => r.slots (r.index i)

theorem count_lt (r : Ring size α) : r.count < size := by
  have := r.head_lt
  have := r.tail_lt
  unfold count
  split_ifs <;> omega

@[simp] theorem contents_length (r : Ring size α) : r.contents.length = r.count := by simp [contents]

theorem succ_mod {i : Nat} (h : i < size) : (i + 1) % size = if i + 1 = size then 0 else i + 1 := by
  split_ifs with last
  · rw [last, Nat.mod_self]
  · exact Nat.mod_eq_of_lt (by omega)

theorem contents_eq_nil {r : Ring size α} : r.contents = [] ↔ r.isEmpty = true := by
  have := r.head_lt
  have := r.tail_lt
  rw [← List.length_eq_zero_iff, contents_length, isEmpty, decide_eq_true_iff]
  unfold count
  split_ifs <;> omega

@[simp] theorem contents_empty (h : 0 < size) (a : α) : (empty h a).contents = [] :=
  contents_eq_nil.2 (by simp [empty, isEmpty])

@[simp] theorem contents_cleared (r : Ring size α) : r.cleared.contents = [] :=
  contents_eq_nil.2 (by simp [cleared, isEmpty])

/-- Only a ring with one slot left is full. -/
theorem enqueue_eq_none {r : Ring size α} {a : α} : r.enqueue a = none ↔ r.contents.length + 1 = size := by
  have := r.head_lt
  have := r.tail_lt
  have full : (r.head + 1) % size = r.tail ↔ r.count + 1 = size := by
    unfold count
    rw [succ_mod r.head_lt]
    split_ifs <;> omega
  rw [contents_length, ← full]
  unfold enqueue
  split_ifs with h <;> simp [h]

theorem contents_enqueue {r r' : Ring size α} {a : α} (h : r.enqueue a = some r') :
    r'.contents = r.contents ++ [a] := by
  have head := r.head_lt
  have tail := r.tail_lt
  unfold enqueue at h
  split_ifs at h with full
  rw [succ_mod r.head_lt] at full
  injection h with h
  subst h
  have more : (r.pushed a).count = r.count + 1 := by
    unfold count pushed
    simp only [succ_mod r.head_lt]
    split_ifs at full ⊢ <;> omega
  have last : r.index r.count = r.head := by
    unfold index count
    split_ifs <;> omega
  have others : ∀ i < r.count, r.index i ≠ r.head := by
    intro i hi
    unfold index count at *
    split_ifs at hi ⊢ <;> omega
  unfold contents
  rw [more, List.range_succ, List.map_append]
  congr 1
  · refine List.map_congr_left fun i hi => ?_
    exact Function.update_of_ne (others i (List.mem_range.1 hi)) _ _
  · show [Function.update r.slots r.head a (r.index r.count)] = [a]
    rw [last, Function.update_self]

theorem dequeue_eq_none {r : Ring size α} : r.dequeue = none ↔ r.contents = [] := by
  rw [contents_eq_nil, isEmpty, decide_eq_true_iff]
  unfold dequeue
  split_ifs with empty <;> simp [empty]

theorem contents_dequeue {r r' : Ring size α} {a : α} (h : r.dequeue = some (a, r')) :
    r.contents = a :: r'.contents := by
  have head := r.head_lt
  have tail := r.tail_lt
  unfold dequeue at h
  split_ifs at h with some
  injection h with h
  injection h with ha hr
  subst ha hr
  have fewer : r.count = r.popped.count + 1 := by
    unfold count popped
    simp only [succ_mod r.tail_lt]
    split_ifs <;> omega
  have first : r.index 0 = r.tail := by
    unfold index
    split_ifs <;> omega
  have shift : ∀ i < r.popped.count, r.index (i + 1) = r.popped.index i := by
    intro i hi
    have := r.count_lt
    unfold index popped
    simp only [succ_mod r.tail_lt]
    split_ifs <;> omega
  unfold contents
  rw [fewer, List.range_succ_eq_map, List.map_cons, List.map_map, first]
  congr 1
  refine List.map_congr_left fun i hi => ?_
  exact congrArg r.slots (shift i (List.mem_range.1 hi))

end Ring

end QmkFirmware.Lib
