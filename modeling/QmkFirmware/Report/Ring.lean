import QmkFirmware.Lib.Run

/-!
# The ring-buffered 6KRO report

With `RING_BUFFERED_6KRO_REPORT_ENABLE` the six keys of the report are a ring: a seventh
key takes the place of the oldest one, and a released key leaves a hole that is closed when
room is needed. `cb_count` decides whether the ring is looked at, and clearing the
report does not change it, so it counts what was cleared as well, modulo 256.
-/

namespace QmkFirmware.Report

open Lib

local instance neZero_six : NeZero 6 := ⟨Nat.succ_ne_zero 5⟩

/-- `keyboard_report->keys`, and `cb_head`, `cb_tail` and `cb_count` -/
structure KeyRing where
  keys : Fin 6 → BitVec 8
  head : Fin 6
  tail : Fin 6
  count : BitVec 8

/-- The indices that `do … while (i != stop)` visits from `i` on -/
def visited (i stop : Fin 6) : List (Fin 6) := (List.range ((stop - i - 1).val + 1)).map fun n => i + Fin.ofNat 6 n

/-- The locals of the left shift in `add_key_byte` -/
structure LeftShift where
  keys : Fin 6 → BitVec 8
  empty : Fin 6
  offset : Nat

/-- The body of its loop -/
def LeftShift.body (s : LeftShift) (i : Fin 6) : LeftShift :=
  if s.keys i ≠ 0 then
    { s with keys := Function.update (Function.update s.keys s.empty (s.keys i)) i 0, empty := s.empty + 1 }
  else { s with offset := s.offset + 1 }

namespace KeyRing

def initial : KeyRing := ⟨fun _ => 0, 0, 0, 0⟩

/-- The end of `add_key_byte` -/
def push (r : KeyRing) (code : BitVec 8) : KeyRing :=
  { r with keys := Function.update r.keys r.tail code, tail := r.tail + 1, count := r.count + 1 }

/-- `add_key_byte` -/
def addKeyByte (r : KeyRing) (code : BitVec 8) : KeyRing :=
  if r.count ≠ 0 then
    if (visited r.head r.tail).any fun i => r.keys i == code then r
    else if r.tail = r.head then
      match (visited r.head r.tail).find? fun i => r.keys i == 0 with
      | none => { r with head := r.head + 1, count := r.count - 1 }.push code
      | some empty =>
        let s := (visited (empty + 1) r.tail).foldl LeftShift.body ⟨r.keys, empty, 1⟩
        { r with keys := s.keys, tail := r.tail - Fin.ofNat 6 s.offset }.push code
    else r.push code
  else r.push code

/-- The left shift in `del_key_byte`; six turns bring the tail to the head. -/
def dropHoles (keys : Fin 6 → BitVec 8) (head : Fin 6) : Nat → Fin 6 → Fin 6
  | 0, tail => tail
  | turns + 1, tail =>
    let tail := tail - 1
    if keys (tail - 1) ≠ 0 then tail else if tail ≠ head then dropHoles keys head turns tail else tail

/-- `del_key_byte` -/
def delKeyByte (r : KeyRing) (code : BitVec 8) : KeyRing :=
  if r.count ≠ 0 then
    match (visited r.head r.tail).find? fun i => r.keys i == code with
    | none => r
    | some i =>
      let r := { r with keys := Function.update r.keys i 0, count := r.count - 1 }
      let r := if r.count = 0 then { r with head := 0, tail := 0 } else r
      if i = r.tail - 1 then { r with tail := dropHoles r.keys r.head 6 r.tail } else r
  else r

/-- `clear_keys_from_report` -/
def clearKeysFromReport (r : KeyRing) : KeyRing := { r with keys := fun _ => 0 }

/-- The keys in the report, in the order of the bytes -/
def report (r : KeyRing) : List (BitVec 8) := ((List.finRange 6).map r.keys).filter (· ≠ 0)

end KeyRing

/-! ## The ring as a list -/

/-- The slot `p` places behind the head -/
def slot (head : Fin 6) (p : Nat) : Fin 6 := head + Fin.ofNat 6 p

@[simp] theorem slot_zero (head : Fin 6) : slot head 0 = head := by
  revert head
  decide

theorem slot_slot (head : Fin 6) (p n : Nat) : slot (slot head p) n = slot head (p + n) := by
  rw [slot, slot, slot, add_assoc]
  congr 1
  apply Fin.ext
  simp [Fin.val_add]

theorem slot_add_one (head : Fin 6) (p : Nat) : slot head p + 1 = slot head (p + 1) := slot_slot head p 1

theorem slot_head_add_one (head : Fin 6) (p : Nat) : slot (head + 1) p = slot head (p + 1) := by
  rw [← slot_add_one, slot, slot, add_right_comm]

theorem slot_six (head : Fin 6) : slot head 6 = head := by
  revert head
  decide

theorem slot_five (head : Fin 6) : slot head 5 = head - 1 := by
  revert head
  decide

theorem slot_inj {head : Fin 6} {p q : Nat} (hp : p < 6) (hq : q < 6) : slot head p = slot head q ↔ p = q := by
  rw [slot, slot, add_right_inj, Fin.ext_iff, Fin.val_ofNat, Fin.val_ofNat, Nat.mod_eq_of_lt hp, Nat.mod_eq_of_lt hq]

theorem exists_slot (head i : Fin 6) : ∃ p < 6, slot head p = i := by
  refine ⟨(i - head).val, (i - head).isLt, ?_⟩
  rw [slot, Fin.ofNat_val_eq_self, add_sub_cancel]

/-- What the loop visits from one slot to a later one, or all around to itself -/
theorem visited_slot (head : Fin 6) {p q : Nat} (lt : p < q) (le : q ≤ p + 6) :
    visited (slot head p) (slot head q) = (List.range (q - p)).map fun n => slot head (p + n) := by
  obtain ⟨n, rfl⟩ : ∃ n, q = p + 1 + n := ⟨q - p - 1, by omega⟩
  have turns : (slot head (p + 1 + n) - slot head p - 1).val = n := by
    have shift : slot head (p + 1 + n) = slot head p + 1 + Fin.ofNat 6 n := by
      rw [← slot_slot, ← slot_add_one]
      rfl
    rw [shift, sub_sub, add_sub_cancel_left, Fin.val_ofNat]
    exact Nat.mod_eq_of_lt (by omega)
  rw [visited, turns, show p + 1 + n - p = n + 1 by omega]
  exact List.map_congr_left fun k _ => slot_slot head p k

/-- From the head on, the ring holds `used` up to the tail and nothing behind it. -/
structure Laid (r : KeyRing) (used : List (BitVec 8)) : Prop where
  le : used.length ≤ 6
  keys : ∀ p < 6, r.keys (slot r.head p) = used.getD p 0
  tail : r.tail = slot r.head used.length

/-- The keys among the slots, the oldest first -/
def present (used : List (BitVec 8)) : List (BitVec 8) := used.filter (· ≠ 0)

section Laid

variable {r : KeyRing} {used : List (BitVec 8)} {code : BitVec 8}

theorem mem_present : code ∈ present used ↔ code ∈ used ∧ code ≠ 0 := by
  simp [present, List.mem_filter]

theorem present_present (l : List (BitVec 8)) : present (present l) = present l := by simp [present]

theorem present_append (a b : List (BitVec 8)) : present (a ++ b) = present a ++ present b := List.filter_append a b

/-- The bytes of the report are the keys, in some order. -/
theorem Laid.report_perm (h : Laid r used) : r.report.Perm (present used) := by
  have around : ((List.range 6).map (slot r.head)).Perm (List.finRange 6) := by
    generalize r.head = head
    revert head
    decide
  have slots : (List.range 6).map (fun p => r.keys (slot r.head p)) = used ++ List.replicate (6 - used.length) 0 := by
    apply List.ext_getElem
    · simp only [List.length_map, List.length_range, List.length_append, List.length_replicate]
      have := h.le
      omega
    · intro p hp _
      simp only [List.length_map, List.length_range] at hp
      rw [List.getElem_map, List.getElem_range, h.keys p hp]
      by_cases inside : p < used.length
      · rw [List.getElem_append_left inside, List.getD_eq_getElem _ _ inside]
      · rw [List.getElem_append_right (Nat.not_lt.1 inside), List.getElem_replicate,
          List.getD_eq_default _ _ (Nat.not_lt.1 inside)]
  have same : present ((List.range 6).map (fun p => r.keys (slot r.head p))) = present used := by
    rw [slots, present_append]
    simp [present]
  rw [← same]
  refine List.Perm.filter _ ?_
  rw [show (fun p => r.keys (slot r.head p)) = r.keys ∘ slot r.head from rfl, ← List.map_map]
  exact (around.map r.keys).symm

/-- What a loop from the head to the tail visits -/
theorem Laid.visits (h : Laid r used) : ∃ m, used.length ≤ m ∧ m ≤ 6 ∧
    visited r.head r.tail = (List.range m).map (slot r.head) := by
  rcases Nat.eq_zero_or_pos used.length with zero | pos
  · refine ⟨6, h.le, Nat.le_refl 6, ?_⟩
    have all := visited_slot r.head (p := 0) (q := 6) (by decide) (by decide)
    simp only [slot_zero, slot_six, Nat.sub_zero, Nat.zero_add] at all
    rw [h.tail, zero, slot_zero]
    exact all
  · refine ⟨used.length, Nat.le_refl _, h.le, ?_⟩
    have upto := visited_slot r.head (p := 0) (q := used.length) pos (by have := h.le; omega)
    simp only [slot_zero, Nat.sub_zero, Nat.zero_add] at upto
    rw [h.tail]
    exact upto

/-- The code is found if and only if the ring holds it. -/
theorem Laid.any (h : Laid r used) (key : code ≠ 0) :
    ((visited r.head r.tail).any fun i => r.keys i == code) = true ↔ code ∈ used := by
  obtain ⟨m, lo, hi, e⟩ := h.visits
  rw [e, List.any_map]
  simp only [List.any_eq_true, List.mem_range, Function.comp_apply, beq_iff_eq]
  constructor
  · rintro ⟨p, hp, at_p⟩
    rw [h.keys p (by omega)] at at_p
    by_cases inside : p < used.length
    · rw [List.getD_eq_getElem _ _ inside] at at_p
      exact at_p ▸ List.getElem_mem inside
    · rw [List.getD_eq_default _ _ (Nat.not_lt.1 inside)] at at_p
      exact absurd at_p.symm key
  · intro mem
    obtain ⟨p, hp, rfl⟩ := List.getElem_of_mem mem
    refine ⟨p, Nat.lt_of_lt_of_le hp lo, ?_⟩
    have := h.le
    rw [h.keys p (by omega), List.getD_eq_getElem _ _ hp]

theorem Laid.push (h : Laid r used) (lt : used.length < 6) (code : BitVec 8) :
    Laid (r.push code) (used ++ [code]) := by
  refine ⟨by simp; omega, fun p hp => ?_, ?_⟩
  · simp only [KeyRing.push, h.tail, Function.update_apply, slot_inj hp lt]
    split
    case isTrue e => rw [e, List.getD_append_right _ _ _ _ (Nat.le_refl _), Nat.sub_self]; rfl
    case isFalse ne =>
      rw [h.keys p hp]
      by_cases inside : p < used.length
      · rw [List.getD_append _ _ _ _ inside]
      · rw [List.getD_eq_default _ _ (Nat.not_lt.1 inside), List.getD_eq_default]
        simp
        omega
  · rw [KeyRing.push, h.tail, slot_add_one, List.length_append]
    rfl

/-- A full ring without a hole gives up its oldest key. -/
theorem Laid.evict (h : Laid r used) (full : used.length = 6) (count : BitVec 8) :
    Laid ({ r with head := r.head + 1, count }.push code) (used.tail ++ [code]) := by
  have tail : r.tail = r.head := by rw [h.tail, full, slot_six]
  have length : (used.tail ++ [code]).length = 6 := by simp [full]
  refine ⟨length.le, fun p hp => ?_, ?_⟩
  · simp only [KeyRing.push, slot_head_add_one, tail, Function.update_apply]
    have last : slot r.head (p + 1) = r.head ↔ p = 5 := by
      rcases Nat.lt_or_ge (p + 1) 6 with lt | ge
      · rw [show (slot r.head (p + 1) = r.head) = (slot r.head (p + 1) = slot r.head 0) by rw [slot_zero],
          slot_inj lt (by decide)]
        omega
      · rw [show p + 1 = 6 by omega, slot_six]
        exact iff_of_true rfl (by omega)
    simp only [last]
    split
    case isTrue e =>
      rw [e, List.getD_append_right _ _ _ _ (by simp [full])]
      simp [full]
    case isFalse ne =>
      rw [h.keys (p + 1) (by omega), List.getD_append _ _ _ _ (by simp [full]; omega)]
      simp [List.getD_eq_getElem?_getD, List.getElem?_tail]
  · simp only [KeyRing.push, tail, length]
    rw [slot_six]

/-! ### Holes -/

/-- The left shift at place `j`: the keys before it are together, and the holes follow them. -/
structure Shifting (head : Fin 6) (l : List (BitVec 8)) (j : Nat) (s : LeftShift) : Prop where
  empty : s.empty = slot head (present (l.take j)).length
  offset : s.offset = j - (present (l.take j)).length
  keys : ∀ p < 6, s.keys (slot head p) =
    if p < (present (l.take j)).length then (present (l.take j)).getD p 0 else if p < j then 0 else l.getD p 0

theorem present_take_succ {l : List (BitVec 8)} {j : Nat} (hj : j < l.length) :
    present (l.take (j + 1)) = present (l.take j) ++ if l[j] ≠ 0 then [l[j]] else [] := by
  rw [List.take_succ_eq_append_getElem hj, present_append]
  congr 1
  split
  case isTrue key => exact List.filter_cons_of_pos (by simpa using key)
  case isFalse zero => exact List.filter_cons_of_neg (by simpa using zero)

theorem length_present_le (l : List (BitVec 8)) (j : Nat) : (present (l.take j)).length ≤ j :=
  Nat.le_trans (List.length_filter_le _ _) (List.length_take_le _ _)

theorem Shifting.body {head : Fin 6} {l : List (BitVec 8)} {j : Nat} {s : LeftShift} (h : Shifting head l j s)
    (six : l.length = 6) (hj : j < 6) (hole : (present (l.take j)).length < j) :
    Shifting head l (j + 1) (s.body (slot head j)) := by
  have inside : j < l.length := by omega
  have here : s.keys (slot head j) = l[j] := by
    rw [h.keys j hj, if_neg (by omega), if_neg (Nat.lt_irrefl j), List.getD_eq_getElem _ _ inside]
  have next := present_take_succ inside
  rw [LeftShift.body, here]
  split
  case isTrue key =>
    rw [if_pos key] at next
    have more : (present (l.take (j + 1))).length = (present (l.take j)).length + 1 := by
      rw [next, List.length_append]
      rfl
    refine ⟨?_, ?_, fun p hp => ?_⟩
    · rw [more, h.empty, slot_add_one]
    · rw [more, h.offset]
      simp
    · simp only [Function.update_apply, h.empty, slot_inj hp hj, slot_inj hp (show (present (l.take j)).length < 6 by omega)]
      rw [more, h.keys p hp]
      generalize hw : (present (l.take j)).length = w at *
      rcases Nat.lt_trichotomy p w with lt | rfl | gt
      · simp only [show p ≠ j by omega, show p ≠ w by omega, lt, show p < w + 1 by omega, if_false, if_true]
        rw [next, List.getD_append _ _ _ _ (by omega)]
      · simp only [show p ≠ j by omega, Nat.lt_succ_self, if_false, if_true]
        rw [next, List.getD_append_right _ _ _ _ (by omega), hw, Nat.sub_self]
        rfl
      · simp only [show p ≠ w by omega, show ¬ p < w + 1 by omega, show ¬ p < w by omega, if_false]
        rcases Nat.lt_trichotomy p j with lt | rfl | gt'
        · simp only [show p ≠ j by omega, lt, show p < j + 1 by omega, if_false, if_true]
        · simp only [Nat.lt_succ_self, if_true]
        · simp only [show p ≠ j by omega, show ¬ p < j by omega, show ¬ p < j + 1 by omega, if_false]
  case isFalse zero =>
    rw [if_neg zero, List.append_nil] at next
    refine ⟨by rw [next, h.empty], ?_, fun p hp => ?_⟩
    · simp only [next, h.offset]
      omega
    · rw [next]
      simp only [h.keys p hp]
      split
      · rfl
      · rcases Nat.lt_trichotomy p j with lt | rfl | gt
        · rw [if_pos lt, if_pos (by omega)]
        · rw [if_neg (Nat.lt_irrefl p), if_pos (Nat.lt_succ_self _), List.getD_eq_getElem _ _ inside]
          exact not_not.1 zero
        · rw [if_neg (by omega), if_neg (by omega)]

/-- The rest of the left shift -/
theorem Shifting.rest {head : Fin 6} {l : List (BitVec 8)} (six : l.length = 6) (n : Nat) : ∀ {j : Nat} {s : LeftShift},
    Shifting head l j s → j + n = 6 → (present (l.take j)).length < j →
    Shifting head l 6 (((List.range n).map fun k => slot head (j + k)).foldl LeftShift.body s) := by
  induction n with
  | zero =>
    intro j s h e _
    obtain rfl : j = 6 := e
    exact h
  | succ n ih =>
    intro j s h e hole
    have next := h.body six (by omega) hole
    have still : (present (l.take (j + 1))).length < j + 1 := by
      rw [present_take_succ (by omega), List.length_append]
      split <;> simp <;> omega
    rw [List.range_succ_eq_map, List.map_cons, List.foldl_cons, Nat.add_zero, List.map_map]
    have more := ih next (by omega) still
    simp only [Nat.add_assoc, Nat.add_comm 1] at more
    exact more

/-- Closing the holes of a ring that has no slot left, up to a hole `e` before the last place -/
theorem Laid.compact (h : Laid r used) (tail : r.tail = r.head) {e : Nat} (he : e < 5)
    (first : ∀ p < e, used.getD p 0 ≠ 0) (hole : used.getD e 0 = 0) :
    let s := (visited (slot r.head e + 1) r.tail).foldl LeftShift.body ⟨r.keys, slot r.head e, 1⟩
    Laid { r with keys := s.keys, tail := r.tail - Fin.ofNat 6 s.offset } (present used) := by
  -- the six slots from the head on
  obtain ⟨l, six, at_p, same⟩ : ∃ l : List (BitVec 8), l.length = 6 ∧ (∀ p < 6, r.keys (slot r.head p) = l.getD p 0) ∧
      present l = present used := by
    refine ⟨used ++ List.replicate (6 - used.length) 0, ?_, fun p hp => ?_, ?_⟩
    · have := h.le
      simp only [List.length_append, List.length_replicate]
      omega
    · rw [h.keys p hp]
      by_cases inside : p < used.length
      · rw [List.getD_append _ _ _ _ inside]
      · rw [List.getD_eq_default _ _ (Nat.not_lt.1 inside), List.getD_append_right _ _ _ _ (Nat.not_lt.1 inside)]
        simp [List.getD_eq_getElem?_getD, List.getElem?_replicate]
        split <;> rfl
    · rw [present_append]
      simp [present]
  have take (p : Nat) (hp : p ≤ e) : present (l.take p) = l.take p := by
    refine List.filter_eq_self.2 fun x hx => ?_
    obtain ⟨q, hq, rfl⟩ := List.getElem_of_mem hx
    rw [List.length_take, Nat.lt_min] at hq
    have key := first q (by omega)
    rw [← h.keys q (by omega), at_p q (by omega), List.getD_eq_getElem _ _ hq.2] at key
    rw [List.getElem_take]
    simpa using key
  have count_e : (present (l.take e)).length = e := by
    rw [take e (Nat.le_refl e), List.length_take]
    omega
  have zero : l[e] = 0 := by
    rw [← List.getD_eq_getElem l 0, ← at_p e (by omega), h.keys e (by omega)]
    exact hole
  have next : present (l.take (e + 1)) = present (l.take e) := by
    rw [present_take_succ (by omega), if_neg (by simpa using zero), List.append_nil]
  have start : Shifting r.head l (e + 1) ⟨r.keys, slot r.head e, 1⟩ := by
    have length : (present (l.take (e + 1))).length = e := by rw [next, count_e]
    refine ⟨by rw [length], by rw [length]; simp, fun p hp => ?_⟩
    change r.keys (slot r.head p) = _
    rw [length, at_p p hp, next, take e (Nat.le_refl e)]
    split
    case isTrue lt =>
      rw [List.getD_eq_getElem _ _ (by omega), List.getD_eq_getElem _ _ (by rw [List.length_take]; omega), List.getElem_take]
    case isFalse ge =>
      split
      case isTrue lt =>
        obtain rfl : p = e := by omega
        rw [List.getD_eq_getElem _ _ (by omega)]
        exact zero
      case isFalse => rfl
  intro s
  have visits : visited (slot r.head e + 1) r.tail = (List.range (5 - e)).map fun k => slot r.head (e + 1 + k) := by
    have upto := visited_slot r.head (p := e + 1) (q := 6) (by omega) (by omega)
    rw [slot_six, show 6 - (e + 1) = 5 - e by omega] at upto
    rw [slot_add_one, tail, upto]
  have done : Shifting r.head l 6 s := by
    have rest := start.rest six (5 - e) (by omega) (by rw [next, count_e]; exact Nat.lt_succ_self e)
    rwa [← visits] at rest
  have all : present (l.take 6) = present used := by rw [List.take_of_length_le (by omega), same]
  have le : (present used).length ≤ 6 := by
    rw [← all]
    exact length_present_le l 6
  refine ⟨le, fun p hp => ?_, ?_⟩
  · change s.keys (slot r.head p) = _
    rw [done.keys p hp, all, if_pos hp]
    split
    case isTrue => rfl
    case isFalse ge => exact (List.getD_eq_default _ _ (Nat.not_lt.1 ge)).symm
  · simp only [tail, done.offset, all]
    rw [sub_eq_iff_eq_add]
    have around := slot_slot r.head (present used).length (6 - (present used).length)
    rw [show (present used).length + (6 - (present used).length) = 6 by omega, slot_six] at around
    exact around.symm

theorem Laid.zeros (h : Laid r used) (none : present used = []) (i : Fin 6) : r.keys i = 0 := by
  obtain ⟨p, hp, rfl⟩ := exists_slot r.head i
  rw [h.keys p hp]
  by_cases inside : p < used.length
  · rw [List.getD_eq_getElem _ _ inside]
    by_contra key
    have mem : used[p] ∈ present used := mem_present.2 ⟨List.getElem_mem inside, key⟩
    rw [none] at mem
    cases mem
  · exact List.getD_eq_default _ _ (Nat.not_lt.1 inside)

/-- Behind the tail, and if nothing is held anywhere, there is nothing. -/
theorem Laid.nil (h : Laid r used) (none : present used = []) (tail : r.tail = r.head) : Laid r [] :=
  ⟨Nat.zero_le 6, fun _ _ => h.zeros none _, by rw [tail, List.length_nil, slot_zero]⟩

end Laid

/-! ## Adding and deleting -/

/-- What the report is to hold, the oldest key first, after a key is added: a seventh takes the place of the first. -/
def addHeld (held : List (BitVec 8)) (code : BitVec 8) : List (BitVec 8) :=
  if code ∈ held then held else (if held.length = 6 then held.tail else held) ++ [code]

/-- The ring holds the keys, in their order, and the slot before the tail is not a hole. -/
structure KeyRing.Inv (r : KeyRing) (held : List (BitVec 8)) : Prop where
  laid : ∃ used, Laid r used ∧ present used = held ∧ (held = [] ∨ ∃ code, code ≠ 0 ∧ used.getLast? = some code)
  nodup : held.Nodup
  zero : r.count = 0 → held = [] ∧ r.tail = r.head

section Inv

variable {r : KeyRing} {held used : List (BitVec 8)} {code : BitVec 8}

theorem KeyRing.inv_initial : KeyRing.initial.Inv [] :=
  ⟨⟨[], ⟨Nat.zero_le 6, fun _ _ => rfl, rfl⟩, rfl, Or.inl rfl⟩, List.nodup_nil, fun _ => ⟨rfl, rfl⟩⟩

theorem nodup_addHeld (h : held.Nodup) (code : BitVec 8) : (addHeld held code).Nodup := by
  rw [addHeld]
  split
  · exact h
  case isFalse new =>
    refine List.nodup_append.2 ⟨?_, List.nodup_singleton code, fun a ha b hb => ?_⟩
    · split
      · exact h.sublist (List.tail_sublist held)
      · exact h
    · rw [List.mem_singleton.1 hb]
      rintro rfl
      refine new ?_
      split at ha
      · exact List.mem_of_mem_tail ha
      · exact ha

/-- All around the ring -/
theorem visited_round (head : Fin 6) : visited head head = (List.range 6).map (slot head) := by
  have all := visited_slot head (p := 0) (q := 6) (by decide) (by decide)
  simp only [slot_zero, slot_six, Nat.sub_zero, Nat.zero_add] at all
  exact all

/-- No slot is left, or none is used. -/
theorem Laid.length_of_round (h : Laid r used) (round : r.tail = r.head) : used.length = 6 ∨ used = [] := by
  have around : slot r.head used.length = slot r.head 0 := by rw [← h.tail, round, slot_zero]
  rcases Nat.lt_or_ge used.length 6 with lt | ge
  · exact Or.inr (List.eq_nil_of_length_eq_zero ((slot_inj lt (by decide)).1 around))
  · exact Or.inl (Nat.le_antisymm h.le ge)

/-- A ring that has no slot left and no hole holds a key in each slot. -/
theorem Laid.full (h : Laid r used) (round : r.tail = r.head)
    (none : (visited r.head r.tail).find? (fun i => r.keys i == 0) = none) : used.length = 6 ∧ present used = used := by
  rw [round, visited_round, List.find?_map, Option.map_eq_none_iff, List.find?_range_eq_none] at none
  have keys (p : Nat) (hp : p < 6) : used.getD p 0 ≠ 0 := by
    rw [← h.keys p hp]
    simpa using none p hp
  refine ⟨?_, List.filter_eq_self.2 fun x mem => ?_⟩
  · rcases h.length_of_round round with six | rfl
    · exact six
    · exact absurd rfl (keys 0 (by decide))
  · obtain ⟨p, hp, rfl⟩ := List.getElem_of_mem mem
    have key := keys p (Nat.lt_of_lt_of_le hp h.le)
    rw [List.getD_eq_getElem _ _ hp] at key
    simpa using key

/-- The first hole of a ring that has no slot left -/
theorem Laid.hole (h : Laid r used) (round : r.tail = r.head) {i : Fin 6}
    (found : (visited r.head r.tail).find? (fun i => r.keys i == 0) = some i) :
    ∃ e < 6, i = slot r.head e ∧ (∀ p < e, used.getD p 0 ≠ 0) ∧ used.getD e 0 = 0 := by
  rw [round, visited_round, List.find?_map, Option.map_eq_some_iff] at found
  obtain ⟨e, found, rfl⟩ := found
  obtain ⟨zero, range, first⟩ := List.find?_range_eq_some.1 found
  have lt : e < 6 := List.mem_range.1 range
  refine ⟨e, lt, rfl, fun p hp => ?_, ?_⟩
  · rw [← h.keys p (Nat.lt_trans hp lt)]
    simpa using first p hp
  · rw [← h.keys e lt]
    simpa using zero

/-- The slot before the tail is not the first hole. -/
theorem Laid.hole_before (h : Laid r used) (round : r.tail = r.head)
    (last : present used = [] ∨ ∃ code, code ≠ 0 ∧ used.getLast? = some code) {e : Nat} (lt : e < 6)
    (first : ∀ p < e, used.getD p 0 ≠ 0) (hole : used.getD e 0 = 0) : e < 5 := by
  refine Nat.lt_of_le_of_ne (by omega) ?_
  rintro rfl
  have six : used.length = 6 := by
    rcases h.length_of_round round with six | rfl
    · exact six
    · exact absurd rfl (first 0 (by decide))
  rcases last with none | ⟨code, key, last⟩
  · have mem : used.getD 0 0 ∈ present used := by
      refine mem_present.2 ⟨?_, first 0 (by decide)⟩
      rw [List.getD_eq_getElem _ _ (by omega)]
      exact List.getElem_mem _
    rw [none] at mem
    cases mem
  · rw [List.getLast?_eq_getElem?, six] at last
    rw [List.getD_eq_getElem?_getD, last] at hole
    exact key hole

/-- Where there is a hole, fewer than six keys are held. -/
theorem Laid.few (h : Laid r used) {e : Nat} (lt : e < 6) (hole : used.getD e 0 = 0) : (present used).length < 6 := by
  rcases Nat.lt_or_ge e used.length with inside | outside
  · refine Nat.lt_of_lt_of_le ?_ h.le
    refine List.length_filter_lt_length_iff_exists.2 ⟨used[e], List.getElem_mem inside, ?_⟩
    rw [List.getD_eq_getElem _ _ inside] at hole
    simpa using hole
  · exact Nat.lt_of_le_of_lt (List.length_filter_le _ _) (Nat.lt_of_le_of_lt outside lt)

theorem KeyRing.Inv.add (h : r.Inv held) (key : code ≠ 0)
    (careful : code ∈ held ∨ held.length = 6 ∨ r.count ≠ -1) : (r.addKeyByte code).Inv (addHeld held code) := by
  obtain ⟨used, laid, rfl, last⟩ := h.laid
  have pushed {r' : KeyRing} {u : List (BitVec 8)} (laid : Laid r' u) (lt : u.length < 6) (same : present u = present used)
      (count : r'.count = r.count) (new : code ∉ present used) : (r'.push code).Inv (addHeld (present used) code) := by
    have few : (present used).length ≠ 6 := by
      rw [← same]
      exact Nat.ne_of_lt (Nat.lt_of_le_of_lt (List.length_filter_le _ _) lt)
    refine ⟨⟨u ++ [code], laid.push lt code, ?_, Or.inr ⟨code, key, by simp⟩⟩, nodup_addHeld h.nodup code, fun zero => ?_⟩
    · rw [present_append, same, addHeld, if_neg new, if_neg few]
      have alone : present [code] = [code] := List.filter_cons_of_pos (by simpa using key)
      rw [alone]
    · simp only [KeyRing.push, count] at zero
      have wrapped : r.count = -1 := by bv_omega
      rcases careful with mem | full | fine
      · exact absurd mem new
      · exact absurd full few
      · exact absurd wrapped fine
  rw [addKeyByte]
  split
  case isTrue counted =>
    split
    case isTrue mem =>
      rw [addHeld, if_pos (mem_present.2 ⟨(laid.any key).1 mem, key⟩)]
      exact h
    case isFalse new =>
      have new : code ∉ present used := fun mem => new ((laid.any key).2 (mem_present.1 mem).1)
      split
      case isTrue round =>
        split
        case h_1 none =>
          obtain ⟨six, all⟩ := laid.full round none
          have alone : present [code] = [code] := List.filter_cons_of_pos (by simpa using key)
          have rest : present used.tail = used.tail :=
            List.filter_eq_self.2 fun x mem => List.filter_eq_self.1 all x (List.mem_of_mem_tail mem)
          refine ⟨⟨used.tail ++ [code], laid.evict six _, ?_, Or.inr ⟨code, key, by simp⟩⟩, nodup_addHeld h.nodup code, ?_⟩
          · rw [present_append, rest, alone, addHeld, if_neg new, all, if_pos six]
          · intro zero
            simp only [KeyRing.push] at zero
            exact absurd (by bv_omega) counted
        case h_2 empty found =>
          obtain ⟨e, lt, rfl, first, hole⟩ := laid.hole round found
          have closed := laid.compact round (laid.hole_before round last lt first hole) first hole
          exact pushed closed (laid.few lt hole) (present_present used) rfl new
      case isFalse apart =>
        have room : used.length < 6 := by
          refine Nat.lt_of_le_of_ne laid.le fun six => apart ?_
          rw [laid.tail, six, slot_six]
        exact pushed laid room rfl rfl new
  case isFalse zero =>
    obtain ⟨none, tail⟩ := h.zero (not_not.1 zero)
    have new : code ∉ present used := by rw [none]; exact List.not_mem_nil
    exact pushed (laid.nil none tail) (by decide) none.symm rfl new

/-- Where a key is found, it is taken out of its slot. -/
theorem Laid.set (h : Laid r used) {p : Nat} (lt : p < used.length) (count : BitVec 8) :
    Laid { r with keys := Function.update r.keys (slot r.head p) 0, count } (used.set p 0) := by
  have six := h.le
  refine ⟨by rw [List.length_set]; exact six, fun q hq => ?_, by rw [List.length_set]; exact h.tail⟩
  simp only [Function.update_apply, slot_inj hq (Nat.lt_of_lt_of_le lt six)]
  rw [h.keys q hq, List.getD_eq_getElem?_getD, List.getD_eq_getElem?_getD, List.getElem?_set]
  by_cases e : q = p
  · rw [if_pos e, if_pos e.symm, if_pos lt]
    rfl
  · rw [if_neg e, if_neg (Ne.symm e)]

theorem Laid.found (h : Laid r used) (key : code ≠ 0) {i : Fin 6}
    (found : (visited r.head r.tail).find? (fun i => r.keys i == code) = some i) :
    ∃ p, ∃ lt : p < used.length, i = slot r.head p ∧ used[p] = code := by
  obtain ⟨m, -, hi, e⟩ := h.visits
  rw [e, List.find?_map, Option.map_eq_some_iff] at found
  obtain ⟨p, found, rfl⟩ := found
  obtain ⟨same, range, -⟩ := List.find?_range_eq_some.1 found
  have same : used.getD p 0 = code := by
    rw [← h.keys p (Nat.lt_of_lt_of_le (List.mem_range.1 range) hi)]
    simpa using same
  have lt : p < used.length := by
    by_contra outside
    rw [List.getD_eq_default _ _ (Nat.not_lt.1 outside)] at same
    exact key same.symm
  refine ⟨p, lt, rfl, ?_⟩
  rwa [List.getD_eq_getElem _ _ lt] at same

theorem present_set (key : code ≠ 0) : ∀ {l : List (BitVec 8)} {p : Nat} (lt : p < l.length), l[p] = code →
    (present l).Nodup → present (l.set p 0) = (present l).erase code
  | x :: l, 0, _, same, _ => by
    obtain rfl : x = code := same
    have left : present (x :: l) = x :: present l := List.filter_cons_of_pos (by simpa using key)
    rw [left, List.erase_cons_head]
    exact List.filter_cons_of_neg (by simp)
  | x :: l, p + 1, lt, same, nodup => by
    have inside : p < l.length := Nat.lt_of_succ_lt_succ lt
    have at_p : l[p] = code := same
    rw [List.set_cons_succ]
    by_cases zero : x = 0
    · have left (m : List (BitVec 8)) : present (x :: m) = present m := List.filter_cons_of_neg (by simpa using zero)
      rw [left] at nodup
      rw [left, left, present_set key inside at_p nodup]
    · have left (m : List (BitVec 8)) : present (x :: m) = x :: present m := List.filter_cons_of_pos (by simpa using zero)
      rw [left] at nodup
      have other : x ≠ code := by
        rintro rfl
        exact (List.nodup_cons.1 nodup).1 (mem_present.2 ⟨at_p ▸ List.getElem_mem inside, key⟩)
      rw [left, left, present_set key inside at_p nodup.of_cons, List.erase_cons_tail (by simpa using other)]

/-! ### Holes before the tail -/

/-- The slots without the holes before the tail -/
def trim (used : List (BitVec 8)) : List (BitVec 8) := used.rdropWhile (· == 0)

theorem trim_hole (l : List (BitVec 8)) : trim (l ++ [0]) = trim l := List.rdropWhile_concat_pos _ _ _ rfl

theorem trim_key (l : List (BitVec 8)) (key : code ≠ 0) : trim (l ++ [code]) = l ++ [code] :=
  List.rdropWhile_concat_neg _ _ _ (by simpa using key)

theorem present_trim (used : List (BitVec 8)) : present (trim used) = present used := by
  induction used using List.reverseRecOn with
  | nil => rfl
  | append_singleton l x ih =>
    by_cases zero : x = 0
    · rw [zero, trim_hole, ih, present_append]
      simp [present]
    · rw [trim_key l zero]

theorem getD_trim (used : List (BitVec 8)) (p : Nat) : (trim used).getD p 0 = used.getD p 0 := by
  induction used using List.reverseRecOn with
  | nil => rfl
  | append_singleton l x ih =>
    by_cases zero : x = 0
    · rw [zero, trim_hole, ih]
      rcases Nat.lt_or_ge p l.length with lt | ge
      · rw [List.getD_append _ _ _ _ lt]
      · rw [List.getD_eq_default _ _ ge, List.getD_append_right _ _ _ _ ge]
        cases p - l.length <;> rfl
    · rw [trim_key l zero]

theorem length_trim_le (used : List (BitVec 8)) : (trim used).length ≤ used.length :=
  (List.rdropWhile_prefix _ _).length_le

theorem last_trim (used : List (BitVec 8)) : trim used = [] ∨ ∃ code, code ≠ 0 ∧ (trim used).getLast? = some code := by
  induction used using List.reverseRecOn with
  | nil => exact Or.inl rfl
  | append_singleton l x ih =>
    by_cases zero : x = 0
    · rw [zero, trim_hole]
      exact ih
    · rw [trim_key l zero]
      exact Or.inr ⟨x, zero, by simp⟩

/-- The tail goes back over the holes before it. -/
theorem dropHoles_eq {keys : Fin 6 → BitVec 8} {head : Fin 6} (used : List (BitVec 8)) : ∀ {turns : Nat},
    used.length < 6 → used.length < turns → (∀ p < 6, keys (slot head p) = used.getD p 0) →
    KeyRing.dropHoles keys head turns (slot head (used.length + 1)) = slot head (trim used).length := by
  induction used using List.reverseRecOn with
  | nil =>
    intro turns _ enough at_p
    obtain ⟨turns, rfl⟩ := Nat.exists_eq_succ_of_ne_zero (Nat.ne_of_gt enough)
    have back : slot head 1 - 1 = head := by rw [slot]; exact add_sub_cancel_right head 1
    have none : keys (head - 1) = 0 := by
      rw [← slot_five]
      exact at_p 5 (by decide)
    simp [KeyRing.dropHoles, back, none, trim]
  | append_singleton l x ih =>
    intro turns lt enough at_p
    obtain ⟨turns, rfl⟩ := Nat.exists_eq_succ_of_ne_zero (Nat.ne_of_gt (Nat.zero_lt_of_lt enough))
    rw [List.length_append, List.length_singleton] at lt enough ⊢
    have back (n : Nat) : slot head (n + 1) - 1 = slot head n := by rw [← slot_add_one, add_sub_cancel_right]
    have here : keys (slot head l.length) = x := by
      rw [at_p _ (by omega), List.getD_append_right _ _ _ _ (Nat.le_refl _), Nat.sub_self]
      rfl
    rw [KeyRing.dropHoles, back, back, here]
    by_cases zero : x = 0
    · have apart : slot head (l.length + 1) ≠ head := by
        rw [← slot_zero head, slot_slot, Ne, slot_inj (by omega) (by decide)]
        omega
      rw [if_neg (by simpa using zero), if_pos apart, zero, trim_hole]
      refine ih (by omega) (by omega) fun p hp => ?_
      rw [at_p p hp, zero, ← getD_trim, trim_hole, getD_trim]
    · rw [if_pos zero, trim_key l zero, List.length_append]
      rfl

/-- Deleting a key empties its slot, whatever becomes of the tail and the count. -/
theorem Laid.del_keys (h : Laid r used) (key : code ≠ 0) (counted : r.count ≠ 0) (mem : code ∈ used) :
    ∃ p, ∃ lt : p < used.length, used[p] = code ∧
      (r.delKeyByte code).keys = Function.update r.keys (slot r.head p) 0 := by
  obtain ⟨i, found⟩ : ∃ i, (visited r.head r.tail).find? (fun i => r.keys i == code) = some i := by
    rw [← Option.isSome_iff_exists, List.find?_isSome, ← List.any_eq_true]
    exact (h.any key).2 mem
  obtain ⟨p, lt, rfl, at_p⟩ := h.found key found
  refine ⟨p, lt, at_p, ?_⟩
  rw [KeyRing.delKeyByte, if_pos counted, found]
  dsimp only
  split_ifs <;> rfl

/-- Every key in the report can be taken out of it. -/
theorem KeyRing.Inv.removed (h : r.Inv held) (mem : code ∈ held) :
    (r.delKeyByte code).report.Perm (held.erase code) := by
  obtain ⟨used, laid, rfl, -⟩ := h.laid
  obtain ⟨mem, key⟩ := mem_present.1 mem
  have counted : r.count ≠ 0 := by
    intro zero
    have present := mem_present.2 ⟨mem, key⟩
    rw [(h.zero zero).1] at present
    cases present
  obtain ⟨p, lt, at_p, keys⟩ := laid.del_keys key counted mem
  have set := (laid.set lt r.count).report_perm
  rw [present_set key lt at_p h.nodup] at set
  rw [KeyRing.report, keys]
  exact set

/-- A ring without a key, wherever its tail is -/
theorem Laid.of_zeros (zero : ∀ i, r.keys i = 0) : ∃ used, Laid r used ∧ present used = [] := by
  obtain ⟨n, hn, tail⟩ := exists_slot r.head r.tail
  refine ⟨List.replicate n 0, ⟨?_, fun p _ => ?_, ?_⟩, by simp [present]⟩
  · rw [List.length_replicate]
    exact Nat.le_of_lt hn
  · rw [zero, List.getD_eq_getElem?_getD, List.getElem?_replicate]
    split <;> rfl
  · rw [List.length_replicate, tail]

/-- The tail goes back over the key that was before it, and the holes before that. -/
theorem Laid.dropped {p : Nat} (h : Laid r (used.set p 0)) (lt : p < used.length) (newest : p = used.length - 1) :
    Laid { r with tail := KeyRing.dropHoles r.keys r.head 6 r.tail } (trim (used.set p 0)) := by
  obtain ⟨l, hole⟩ : ∃ l, used.set p 0 = l ++ [0] := by
    rcases List.eq_nil_or_concat used with rfl | ⟨l, x, rfl⟩
    · exact absurd lt (Nat.not_lt_zero p)
    · refine ⟨l, ?_⟩
      rw [List.concat_eq_append] at newest ⊢
      rw [newest, List.set_append_right _ _ (by simp)]
      simp
  rw [hole] at h ⊢
  have six := h.le
  refine ⟨Nat.le_trans (length_trim_le _) six, fun q hq => by rw [getD_trim]; exact h.keys q hq, ?_⟩
  rw [List.length_append, List.length_singleton] at six
  dsimp only
  rw [h.tail, List.length_append, List.length_singleton, trim_hole]
  refine dropHoles_eq l (by omega) (by omega) fun q hq => ?_
  rw [h.keys q hq, ← getD_trim, trim_hole, getD_trim]

theorem KeyRing.Inv.del (h : r.Inv held) (key : code ≠ 0)
    (careful : code ∈ held → r.count = 1 → held.length = 1) : (r.delKeyByte code).Inv (held.erase code) := by
  obtain ⟨used, laid, rfl, last⟩ := h.laid
  rw [KeyRing.delKeyByte]
  split
  case isFalse zero =>
    have none := (h.zero (not_not.1 zero)).1
    rw [none] at h ⊢
    exact h
  case isTrue counted =>
    split
    case h_1 none =>
      have new : code ∉ present used := fun mem => by
        have mem := (laid.any key).2 (mem_present.1 mem).1
        rw [List.any_eq_true, ← List.find?_isSome, none] at mem
        cases mem
      rw [List.erase_of_not_mem new]
      exact h
    case h_2 i found =>
      obtain ⟨p, lt, rfl, at_p⟩ := laid.found key found
      have set := laid.set lt (r.count - 1)
      have left := present_set key lt at_p h.nodup
      have mem : code ∈ present used := mem_present.2 ⟨at_p ▸ List.getElem_mem lt, key⟩
      have nodup := h.nodup.erase code
      dsimp only
      by_cases one : r.count - 1 = 0
      · -- the only key: head and tail go back to the first slot
        have alone : (present used).erase code = [] := by
          refine List.eq_nil_of_length_eq_zero ?_
          rw [List.length_erase_of_mem mem, careful mem (by bv_omega)]
        rw [if_pos one, alone]
        have zeros := set.zeros (left.trans alone)
        have back : KeyRing.dropHoles (Function.update r.keys (slot r.head p) 0) 0 6 0 = 0 :=
          dropHoles_eq (List.replicate 5 0) (by decide) (by decide) fun q _ => by
            rw [List.getD_eq_getElem?_getD, List.getElem?_replicate]
            refine (zeros _).trans ?_
            split <;> rfl
        have start (count : BitVec 8) :
            KeyRing.Inv { r with keys := Function.update r.keys (slot r.head p) 0, head := 0, tail := 0, count } [] :=
          ⟨⟨[], ⟨Nat.zero_le 6, fun q _ => zeros _, rfl⟩, rfl, Or.inl rfl⟩, List.nodup_nil, fun _ => ⟨rfl, rfl⟩⟩
        split
        · simp only [back]
          exact start _
        · exact start _
      · rw [if_neg one]
        have counts {r' : KeyRing} (same : r'.count = r.count - 1) :
            r'.count = 0 → (present used).erase code = [] ∧ r'.tail = r'.head :=
          fun zero => absurd (same.symm.trans zero) one
        have before : slot r.head p = r.tail - 1 ↔ p = used.length - 1 := by
          have six := laid.le
          have back : r.tail - 1 = slot r.head (used.length - 1) := by
            rw [laid.tail, show used.length = used.length - 1 + 1 by omega, ← slot_add_one, add_sub_cancel_right]
            rfl
          rw [back, slot_inj (by omega) (by omega)]
        split
        case isTrue newest =>
          refine ⟨⟨trim (used.set p 0), set.dropped lt (before.1 newest), (present_trim _).trans left, ?_⟩, nodup, counts rfl⟩
          rcases last_trim (used.set p 0) with none | some
          · refine Or.inl ?_
            rw [← left, ← present_trim, none]
            rfl
          · exact Or.inr some
        case isFalse older =>
          refine ⟨⟨used.set p 0, set, left, Or.inr ?_⟩, nodup, counts rfl⟩
          rcases last with none | ⟨last, other, same⟩
          · rw [none] at mem
            cases mem
          · refine ⟨last, other, ?_⟩
            rw [List.getLast?_eq_getElem?] at same ⊢
            rw [List.length_set, List.getElem?_set_ne (fun e => older (before.2 e))]
            exact same

theorem KeyRing.Inv.clear (h : r.Inv held) : r.clearKeysFromReport.Inv [] := by
  obtain ⟨used, laid, none⟩ := Laid.of_zeros (r := r.clearKeysFromReport) fun _ => rfl
  exact ⟨⟨used, laid, none, Or.inl rfl⟩, List.nodup_nil, fun zero => ⟨rfl, (h.zero zero).2⟩⟩

end Inv

/-! ## Runs -/

/-- The calls that change the keys of the report -/
inductive Call where
  | add (code : BitVec 8)
  | del (code : BitVec 8)
  | clear

/-- The ring, and what the report is to hold -/
structure RingWorld where
  ring : KeyRing
  held : List (BitVec 8)

namespace RingWorld

def initial : RingWorld := ⟨KeyRing.initial, []⟩

def step (w : RingWorld) : Call → RingWorld
  | .add code => ⟨w.ring.addKeyByte code, addHeld w.held code⟩
  | .del code => ⟨w.ring.delKeyByte code, w.held.erase code⟩
  | .clear => ⟨w.ring.clearKeysFromReport, []⟩

/-- What has to hold of a call: a new key does not bring `cb_count` from `-1` to `0`, and the
deletion of a key brings it to `0` only if no other key is held. `KC_NO` is not added, and not
deleted where a hole would be taken for it. -/
def Careful (w : RingWorld) : Call → Prop
  | .add code => code ≠ 0 ∧ (code ∈ w.ring.report ∨ w.ring.report.length = 6 ∨ w.ring.count ≠ -1)
  | .del code =>
    if code = 0 then w.ring.count = 0 ∨ ∀ i ∈ visited w.ring.head w.ring.tail, w.ring.keys i ≠ 0
    else code ∈ w.ring.report → w.ring.count = 1 → w.ring.report.length = 1
  | .clear => True

instance decidableCareful (w : RingWorld) : ∀ call, Decidable (w.Careful call)
  | .add _ => inferInstanceAs (Decidable (_ ∧ _))
  | .del code =>
    inferInstanceAs (Decidable (if code = 0 then w.ring.count = 0 ∨ ∀ i ∈ visited w.ring.head w.ring.tail, w.ring.keys i ≠ 0
      else code ∈ w.ring.report → w.ring.count = 1 → w.ring.report.length = 1))
  | .clear => isTrue trivial

/-- The report holds the keys it is to hold, and each of them can be deleted. -/
def Exact (w : RingWorld) : Prop :=
  w.ring.report.Perm w.held ∧
    ∀ code ∈ w.ring.report, (w.ring.delKeyByte code).report.Perm (w.held.erase code)

theorem report_perm {w : RingWorld} (h : w.ring.Inv w.held) : w.ring.report.Perm w.held := by
  obtain ⟨used, laid, held, -⟩ := h.laid
  rw [← held]
  exact laid.report_perm

theorem step_inv (w : RingWorld) (call : Call) (h : w.ring.Inv w.held) (careful : w.Careful call) :
    (w.step call).ring.Inv (w.step call).held := by
  have perm := report_perm h
  cases call with
  | add code =>
    obtain ⟨key, careful⟩ := careful
    rw [perm.mem_iff, perm.length_eq] at careful
    exact h.add key careful
  | del code =>
    rw [Careful] at careful
    split at careful
    case isTrue none =>
      subst none
      have same : w.ring.delKeyByte 0 = w.ring := by
        rw [KeyRing.delKeyByte]
        split
        case isFalse => rfl
        case isTrue counted =>
          have none : (visited w.ring.head w.ring.tail).find? (fun i => w.ring.keys i == 0) = none := by
            rw [List.find?_eq_none]
            intro i mem
            simpa using careful.resolve_left counted i mem
          rw [none]
      have new : (0 : BitVec 8) ∉ w.held := by
        obtain ⟨used, -, held, -⟩ := h.laid
        rw [← held, mem_present]
        exact fun mem => mem.2 rfl
      rw [step, same, List.erase_of_not_mem new]
      exact h
    case isFalse key =>
      rw [perm.mem_iff, perm.length_eq] at careful
      exact h.del key careful
  | clear => exact h.clear

/-- After any run of careful calls the report is exact. -/
theorem exact_of_careful (calls : List Call) (careful : Along step Careful initial calls) :
    (calls.foldl step initial).Exact := by
  have inv := careful.invariant (fun w => w.ring.Inv w.held) step_inv KeyRing.inv_initial
  have perm := report_perm inv
  exact ⟨perm, fun code mem => inv.removed (perm.mem_iff.1 mem)⟩

/-- Six keys, a deletion that leaves a hole, a seventh key that closes it, and an eighth -/
theorem exact_run : (List.foldl step initial
    [.add 4, .add 5, .add 6, .add 7, .add 8, .add 9, .del 6, .add 10, .add 11, .clear, .add 4, .del 0]).Exact :=
  exact_of_careful _ (by decide +kernel)

/-- A key that is cleared 255 times, pressed and released -/
def worn : List Call := (List.replicate 255 [Call.add 4, Call.clear]).flatten ++ [.add 4]

/-- The key is in the report, and `del_key_byte` leaves it there. -/
theorem not_exact : ¬ ∀ calls : List Call, (∀ code, .add code ∈ calls ∨ .del code ∈ calls → code ≠ 0) →
    (calls.foldl step initial).Exact := by
  intro all
  have stuck : (worn.foldl step initial).ring.report = [4] ∧
      ((worn.foldl step initial).ring.delKeyByte 4).report = [4] ∧ (worn.foldl step initial).held = [4] := by decide +kernel
  have keys : ∀ code, .add code ∈ worn ∨ .del code ∈ worn → code ≠ 0 := by
    intro code mem
    simp only [worn, List.mem_append, List.mem_flatten, List.mem_replicate] at mem
    rintro rfl
    simp at mem
  have removed := (all worn keys).2 4 (by rw [stuck.1]; decide)
  rw [stuck.2.1, stuck.2.2] at removed
  exact absurd removed.length_eq (by decide)

end RingWorld

end QmkFirmware.Report
