import QmkFirmware.Lib.Run
import QmkFirmware.Debounce.Code

/-!
# What `debounce` returns

Every file but `sym_eager_pr.c` returns true exactly when it changed the cooked matrix.
`sym_eager_pr.c` compares the cooked row with the raw row after it stored the one in the
other, so it never returns true.
-/

namespace QmkFirmware.Debounce
open Lib

variable {rows cols fast : Nat} {I V K : Type} [Fintype I]

/-- What a call answers is whether it changed the cooked matrix. -/
def Truthful {file : File rows cols} (x : World file) (c : Call rows cols) : Prop :=
  (x.call c).2.2 = true ↔ (x.step c).cooked ≠ x.cooked

/-! ## The common frame -/

/-- What the bodies of a file keep: the flag is right, and a value that was changed is the raw one,
which the second loop leaves alone. -/
structure Bodies.Honest (bodies : Bodies V K) : Prop where
  update : ∀ elapsed raw cooked counter, (bodies.update elapsed raw cooked counter).cookedChanged = true ↔
    (bodies.update elapsed raw cooked counter).cooked ≠ cooked
  settles : ∀ elapsed raw cooked counter, (bodies.update elapsed raw cooked counter).cooked ≠ cooked →
    (bodies.update elapsed raw cooked counter).cooked = raw
  transfer : ∀ raw cooked counter, (bodies.transfer raw cooked counter).cookedChanged = true ↔
    (bodies.transfer raw cooked counter).cooked ≠ cooked
  settled : ∀ raw counter, (bodies.transfer raw raw counter).cooked = raw

theorem honest_deferPk (d : Nat) : (deferPk d).Honest := by
  constructor
  · intro elapsed raw cooked counter
    rw [deferPk_update]
    by_cases expired : counter ≠ 0 ∧ counter ≤ elapsed
    · simp [expired, ne_comm]
    · simp [expired]
  · intro elapsed raw cooked counter
    rw [deferPk_update]
    dsimp only
    split
    · exact fun _ => rfl
    · exact fun changed => absurd rfl changed
  · intro raw cooked counter
    by_cases same : raw = cooked
    · rw [same, deferPk_transfer_self]
      simp [Cell.same]
    · rw [deferPk_transfer_ne same]
      simp
  · intro raw counter
    rw [deferPk_transfer_self]
    rfl

theorem honest_eagerPk (d : Nat) : (eager acceptKey d).Honest := by
  constructor
  · intro elapsed raw cooked counter
    rw [eager_update]
    simp
  · intro elapsed raw cooked counter
    rw [eager_update]
    exact fun changed => absurd rfl changed
  · intro raw cooked counter
    by_cases same : raw = cooked
    · rw [same, eager_transfer_self]
      simp [Cell.same]
    · by_cases free : counter = 0
      · rw [free, eager_transfer_free same]
        simp [acceptKey]
      · rw [eager_transfer_locked free]
        simp [Cell.same]
  · intro raw counter
    rw [eager_transfer_self]
    rfl

theorem honest_asym (d : Nat) : (asym d).Honest := by
  constructor
  · intro elapsed raw cooked counter
    rw [asym_update]
    by_cases expired : (counter.time ≠ 0 ∧ counter.time ≤ elapsed) ∧ counter.pressed = false
    · simp [expired]
    · simp [expired]
  · intro elapsed raw cooked counter
    rw [asym_update]
    dsimp only
    split
    · exact fun _ => rfl
    · exact fun changed => absurd rfl changed
  · rintro raw cooked ⟨pressed, time⟩
    by_cases same : raw = cooked
    · rw [same, asym_transfer_self]
      simp [Cell.same]
    · by_cases free : time = 0
      · subst free
        revert same
        cases raw <;> cases cooked <;> simp [asym_transfer_press, asym_transfer_release]
      · rw [asym_transfer_running same free]
        simp [Cell.same]
  · intro raw counter
    rw [asym_transfer_self]
    rfl

namespace Frame

variable {bodies : Bodies V K} {raw cooked : I → V} {changed : Bool} {now : Nat} {s : Frame fast I K}

/-- What the first part changed is said, and is the raw value. -/
theorem elapse_honest (honest : bodies.Honest) :
    ((s.elapse bodies raw cooked now).2.2 = true ↔ ∃ i, (s.elapse bodies raw cooked now).2.1 i ≠ cooked i) ∧
      ∀ i, (s.elapse bodies raw cooked now).2.1 i ≠ cooked i → (s.elapse bodies raw cooked now).2.1 i = raw i := by
  have same : (false = true ↔ ∃ i, cooked i ≠ cooked i) ∧ ∀ i, cooked i ≠ cooked i → cooked i = raw i :=
    ⟨by simp, fun i changed => absurd rfl changed⟩
  unfold elapse
  split
  · dsimp only
    split
    · unfold Frame.update
      dsimp only
      rw [decide_eq_true_iff]
      exact ⟨exists_congr fun i => honest.update _ _ _ _, fun i => honest.settles _ _ _ _⟩
    · exact same
  · exact same

/-- **The answer of the frame** -/
theorem debounce_honest (honest : bodies.Honest) :
    (s.debounce bodies raw cooked changed now).2.2 = true ↔ (s.debounce bodies raw cooked changed now).2.1 ≠ cooked := by
  obtain ⟨said, settled⟩ := @elapse_honest fast I V K _ bodies raw cooked now s honest
  unfold debounce
  generalize s.elapse bodies raw cooked now = t at said settled ⊢
  obtain ⟨t, middle, first⟩ := t
  dsimp only at said settled ⊢
  rw [Function.ne_iff]
  split
  · unfold transfer
    dsimp only
    rw [Bool.or_eq_true, said, decide_eq_true_iff, ← exists_or]
    refine exists_congr fun i => ?_
    rw [honest.transfer]
    by_cases early : middle i = cooked i
    · rw [early]
      simp
    · have raw_i := settled i early
      rw [raw_i] at early ⊢
      rw [honest.settled]
      simp [early]
  · exact said

end Frame

/-- A file with a counter for each key -/
theorem perKey_truthful {elapsed : K} {bodies : Bodies Bool K} (honest : bodies.Honest)
    (x : World (perKey fast elapsed bodies : File rows cols)) (c : Call rows cols) : Truthful x c := by
  refine (Frame.debounce_honest honest).trans ⟨fun changed => ?_, fun changed => ?_⟩
  · obtain ⟨⟨r, k⟩, ne⟩ := Function.ne_iff.mp changed
    exact fun same => ne (congrFun (congrFun same r) k)
  · obtain ⟨r, ne⟩ := Function.ne_iff.mp changed
    obtain ⟨k, ne⟩ := Function.ne_iff.mp ne
    exact fun same => ne (congrFun same (r, k))

theorem none_truthful (x : World (none : File rows cols)) (c : Call rows cols) : Truthful x c := by
  unfold Truthful World.step World.call none
  exact decide_eq_true_iff

theorem DeferG.debounce_honest {d now : Nat} {raw cooked : Matrix rows cols} {changed : Bool} (s : DeferG fast) :
    (s.debounce d raw cooked changed now).2.2 = true ↔ (s.debounce d raw cooked changed now).2.1 ≠ cooked := by
  unfold DeferG.debounce
  generalize (if changed then (⟨true, BitVec.ofNat fast now⟩ : DeferG fast) else s) = t
  dsimp only
  split
  · rw [decide_eq_true_iff]
    exact ne_comm
  · simp

theorem DeferPr.debounce_honest {d now : Nat} {raw cooked : Matrix rows cols} (changed : Bool)
    (s : DeferPr rows cols) :
    (s.debounce d raw cooked changed now).2.2 = true ↔ (s.debounce d raw cooked changed now).2.1 ≠ cooked := by
  unfold DeferPr.debounce
  dsimp only
  rw [decide_eq_true_iff, Function.ne_iff]
  refine exists_congr fun r => ?_
  unfold DeferPr.row
  split
  · simp
  · split
    · simp
    · split
      · rw [decide_eq_true_iff]
        exact ne_comm
      · simp

/-! ## `sym_eager_pr.c` -/

/-- The time that a call takes from the counters -/
def Frame.elapsed (s : Frame fast I K) (now : Nat) : Nat :=
  if s.countersNeedUpdate then min (BitVec.ofNat fast now - s.lastTime).toNat 255 else 0

/-- The call accepts a change: it comes to the transfer, where a row differs whose counter has expired. -/
def Frame.Accepts [DecidableEq V] (raw cooked : I → V) (changed : Bool) (now : Nat) (s : Frame fast I Nat) : Prop :=
  (changed = true ∨ if 0 < s.elapsed now then ∃ i, s.counters i ≠ 0 ∧ s.counters i ≤ s.elapsed now
    else s.matrixNeedUpdate = true) ∧ ∃ i, raw i ≠ cooked i ∧ s.counters i ≤ s.elapsed now

section

variable [DecidableEq V] {accept : V → V → V × Bool} {d now : Nat} {raw cooked : I → V} {changed : Bool}
  {s : Frame fast I Nat}

/-- What the first part does in an eager file: the counters lose the time, and where one expires the
matrix needs an update. -/
theorem Frame.elapse_eager :
    (s.elapse (eager accept d) raw cooked now).2 = (cooked, false) ∧
      (s.elapse (eager accept d) raw cooked now).1.counters = (fun i => s.counters i - s.elapsed now) ∧
      ((s.elapse (eager accept d) raw cooked now).1.matrixNeedUpdate = true ↔
        if 0 < s.elapsed now then ∃ i, s.counters i ≠ 0 ∧ s.counters i ≤ s.elapsed now
        else s.matrixNeedUpdate = true) := by
  unfold Frame.elapse Frame.elapsed
  split
  next runs =>
    dsimp only
    generalize min (BitVec.ofNat fast now - s.lastTime).toNat 255 = elapsed
    split
    next pos =>
      unfold Frame.update
      simp only [eager_update]
      refine ⟨by simp, trivial, ?_⟩
      simp
    next zero =>
      have none : elapsed = 0 := Nat.eq_zero_of_not_pos zero
      subst none
      exact ⟨rfl, rfl, Iff.rfl⟩
  next => exact ⟨rfl, rfl, Iff.rfl⟩

/-- An eager file changes the matrix exactly when it accepts a change. -/
theorem Frame.debounce_eager_cooked (differs : ∀ raw cooked, raw ≠ cooked → (accept raw cooked).1 ≠ cooked) :
    (s.debounce (eager accept d) raw cooked changed now).2.1 ≠ cooked ↔ s.Accepts raw cooked changed now := by
  obtain ⟨middle, counters, need⟩ := @Frame.elapse_eager fast I V _ _ accept d now raw cooked s
  unfold Frame.debounce Frame.Accepts
  rw [← need]
  generalize s.elapse (eager accept d) raw cooked now = t at middle counters ⊢
  obtain ⟨t, middle', first⟩ := t
  obtain ⟨rfl, rfl⟩ := Prod.mk.inj middle
  dsimp only at counters ⊢
  split
  next gate =>
    rw [Bool.or_eq_true] at gate
    rw [and_iff_right gate, Function.ne_iff]
    unfold Frame.transfer
    dsimp only
    rw [counters]
    refine exists_congr fun i => ?_
    unfold eager Cell.same
    dsimp only
    split
    next ne =>
      rw [and_iff_right ne]
      split
      next free => exact ⟨fun _ => Nat.sub_eq_zero_iff_le.mp free, fun _ => differs _ _ ne⟩
      next locked =>
        exact ⟨fun changed => absurd rfl changed, fun free => absurd (Nat.sub_eq_zero_iff_le.mpr free) locked⟩
    next same => exact ⟨fun changed => absurd rfl changed, fun both => absurd both.1 same⟩
  next gate =>
    rw [Bool.or_eq_true] at gate
    exact ⟨fun changed => absurd rfl changed, fun both => absurd both.1 gate⟩

/-- `sym_eager_pr.c` never says that it changed the matrix. -/
theorem Frame.debounce_eager_silent (silent : ∀ raw cooked, (accept raw cooked).2 = false) :
    (s.debounce (eager accept d) raw cooked changed now).2.2 = false := by
  obtain ⟨middle, -, -⟩ := @Frame.elapse_eager fast I V _ _ accept d now raw cooked s
  unfold Frame.debounce
  generalize s.elapse (eager accept d) raw cooked now = t at middle ⊢
  obtain ⟨t, middle', first⟩ := t
  obtain ⟨rfl, rfl⟩ := Prod.mk.inj middle
  dsimp only
  split
  · unfold Frame.transfer
    dsimp only
    rw [Bool.false_or, decide_eq_false_iff_not]
    rintro ⟨i, said⟩
    unfold eager Cell.same at said
    dsimp only at said
    split at said
    · split at said
      · rw [silent] at said
        exact absurd said (by simp)
      · exact absurd said (by simp)
    · exact absurd said (by simp)
  · rfl

end

/-- The calls that change the matrix in silence: those with which `sym_eager_pr.c` accepts a change -/
def Silent (fast start : Nat) : (a : Algorithm) → (DEBOUNCE : Nat) → World (a.file fast start DEBOUNCE : File rows cols) →
    Call rows cols → Prop
  | .symEagerPr, _ + 1, x, c =>
    Frame.Accepts c.raw x.cooked (decide (c.raw ≠ x.lastRaw)) c.now (x.state : Frame fast (Fin rows) Nat)
  | _, _, _, _ => False

theorem truthful_iff_step {start : Nat} (a : Algorithm) (DEBOUNCE : Nat) (x : World (a.file fast start DEBOUNCE : File rows cols))
    (c : Call rows cols) : Truthful x c ↔ ¬ Silent fast start a DEBOUNCE x c := by
  match a, DEBOUNCE with
  | .none, _ => exact iff_of_true (none_truthful x c) id
  | .symDeferG, 0 => exact iff_of_true (none_truthful x c) id
  | .symDeferG, _ + 1 => exact iff_of_true (DeferG.debounce_honest _) id
  | .symDeferPr, _ => exact iff_of_true (DeferPr.debounce_honest (decide (c.raw ≠ x.lastRaw)) _) id
  | .symDeferPk, 0 => exact iff_of_true (none_truthful x c) id
  | .symDeferPk, d + 1 => exact iff_of_true (perKey_truthful (honest_deferPk _) x c) id
  | .symEagerPr, 0 => exact iff_of_true (none_truthful x c) id
  | .symEagerPk, 0 => exact iff_of_true (none_truthful x c) id
  | .symEagerPk, d + 1 => exact iff_of_true (perKey_truthful (honest_eagerPk _) x c) id
  | .asymEagerDeferPk, 0 => exact iff_of_true (none_truthful x c) id
  | .asymEagerDeferPk, d + 1 => exact iff_of_true (perKey_truthful (honest_asym _) x c) id
  | .symEagerPr, d + 1 =>
    have silent : (x.call c).2.2 = false := Frame.debounce_eager_silent fun raw cooked => decide_eq_false (not_not.mpr rfl)
    have changes : (x.step c).cooked ≠ x.cooked ↔ Silent fast start .symEagerPr (d + 1) x c :=
      Frame.debounce_eager_cooked fun raw cooked ne => ne
    unfold Truthful
    rw [silent, changes]
    simp

/-- **What `debounce` returns**: every call of a run answers whether it changed the cooked matrix if
and only if none of them is one with which `sym_eager_pr.c` accepts a change. -/
theorem debounce_truthful_iff {start : Nat} (a : Algorithm) (DEBOUNCE : Nat) (calls : List (Call rows cols)) :
    Along World.step Truthful (World.start (a.file fast start DEBOUNCE : File rows cols)) calls ↔
      Along World.step (fun x c => ¬ Silent fast start a DEBOUNCE x c)
        (World.start (a.file fast start DEBOUNCE)) calls := by
  constructor
  · exact Along.mono fun x c => (truthful_iff_step a DEBOUNCE x c).mp
  · exact Along.mono fun x c => (truthful_iff_step a DEBOUNCE x c).mpr

/-- A key is pressed: the matrix changes, and `sym_eager_pr.c` says that it did not. -/
theorem eager_pr_silent :
    ¬ Truthful (World.start (Algorithm.symEagerPr.file 32 0 5 : File 1 1)) ⟨fun _ _ => true, 1⟩ := by
  unfold Truthful
  decide

end QmkFirmware.Debounce
