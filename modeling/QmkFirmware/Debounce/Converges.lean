import QmkFirmware.Lib.Settling
import QmkFirmware.Lib.Timer
import QmkFirmware.Debounce.Truthful

/-!
# Convergence

A raw matrix that stays as it is comes to be the cooked matrix. A cell that differs has a
counter that runs, and while a counter runs every call takes the time from it that has
passed since the call before.
-/

namespace QmkFirmware.Debounce
open Lib

variable {rows cols fast : Nat} {I V K : Type} [Fintype I]

/-! ## One cell -/

/-- What the bodies of a file do as time passes. `time` is the time left on a counter, at most `d`;
`due k b` says that the cell settles when `k` stages are over, the first in `b`, if the raw value stays
as it is. There are `stages` when a counter starts, and each lasts `window`. -/
structure Bodies.Settles (bodies : Bodies V K) (time : K → Nat) (d window stages : Nat)
    (due : Nat → Nat → (raw cooked : V) → K → Prop) : Prop where
  le : d ≤ 255
  bounded : ∀ k b raw cooked counter, due k b raw cooked counter → time counter ≤ d
  runs : ∀ k b raw cooked counter, due k b raw cooked counter → cooked ≠ raw → time counter ≠ 0
  mono : ∀ k b b' raw cooked counter, b ≤ b' → due k b raw cooked counter → due k b' raw cooked counter
  settled : ∀ k b raw counter, time counter ≤ d → due k b raw raw counter
  update_time : ∀ elapsed raw cooked counter, time (bodies.update elapsed raw cooked counter).counter ≤ time counter
  update_runs : ∀ elapsed raw cooked counter, time (bodies.update elapsed raw cooked counter).counter ≠ 0 →
    (bodies.update elapsed raw cooked counter).countersNeedUpdate = true
  transfer_runs : ∀ raw cooked counter, time (bodies.transfer raw cooked counter).counter ≠ 0 →
    (bodies.transfer raw cooked counter).countersNeedUpdate = true ∨ time counter ≠ 0
  start : ∀ raw cooked counter, time counter ≤ d →
    due stages window raw (bodies.transfer raw cooked counter).cooked (bodies.transfer raw cooked counter).counter
  keep : ∀ k b raw cooked counter, due k b raw cooked counter →
    due k b raw (bodies.transfer raw cooked counter).cooked (bodies.transfer raw cooked counter).counter
  update : ∀ k b raw cooked counter gap cell, due k b raw cooked counter → 0 < gap →
    cell = bodies.update (min gap 255) raw cooked counter → due k (b - gap) raw cell.cooked cell.counter ∨
      cell.matrixNeedUpdate = true ∧ due k (b - gap) raw (bodies.transfer raw cell.cooked cell.counter).cooked
        (bodies.transfer raw cell.cooked cell.counter).counter
  next : ∀ k raw cooked counter, due k 0 raw cooked counter → due (k - 1) window raw cooked counter
  done : ∀ b raw cooked counter, due 0 b raw cooked counter → cooked = raw

/-- A cell with one stage: it settles when its counter expires. -/
def dueOnce (d k b : Nat) (raw cooked : V) (counter : Nat) : Prop :=
  counter ≤ d ∧ (cooked = raw ∨ k ≠ 0 ∧ counter ≠ 0 ∧ counter ≤ b)

theorem settles_eager [DecidableEq V] {accept : V → V → V × Bool} {d window : Nat} (pos : 0 < d) (le : d ≤ 255)
    (fits : d ≤ window) (accepts : ∀ raw cooked, raw ≠ cooked → (accept raw cooked).1 = raw) :
    (eager accept d).Settles id d window 1 (dueOnce d) := by
  constructor
  · exact le
  · exact fun k b raw cooked counter due => due.1
  · rintro k b raw cooked counter ⟨-, same | ⟨-, runs, -⟩⟩ differs
    · exact absurd same differs
    · exact runs
  · rintro k b b' raw cooked counter le ⟨small, due⟩
    exact ⟨small, due.imp_right fun ⟨stage, runs, left⟩ => ⟨stage, runs, left.trans le⟩⟩
  · exact fun k b raw counter small => ⟨small, .inl rfl⟩
  · intro elapsed raw cooked counter
    rw [eager_update]
    exact Nat.sub_le _ _
  · intro elapsed raw cooked counter
    rw [eager_update]
    exact fun runs => decide_eq_true (Nat.lt_of_sub_ne_zero runs)
  · intro raw cooked counter
    by_cases same : raw = cooked
    · rw [same, eager_transfer_self]
      exact .inr
    · by_cases free : counter = 0
      · rw [free, eager_transfer_free same]
        exact fun _ => .inl rfl
      · rw [eager_transfer_locked free]
        exact .inr
  · intro raw cooked counter small
    by_cases same : raw = cooked
    · rw [same, eager_transfer_self]
      exact ⟨small, .inl rfl⟩
    · by_cases free : counter = 0
      · rw [free, eager_transfer_free same]
        exact ⟨le_refl d, .inl (accepts _ _ same)⟩
      · rw [eager_transfer_locked free]
        exact ⟨small, .inr ⟨one_ne_zero, free, small.trans fits⟩⟩
  · rintro k b raw cooked counter ⟨small, rfl | ⟨stage, runs, left⟩⟩
    · rw [eager_transfer_self]
      exact ⟨small, .inl rfl⟩
    · rw [eager_transfer_locked runs]
      exact ⟨small, .inr ⟨stage, runs, left⟩⟩
  · rintro k b raw cooked counter gap _ ⟨small, due⟩ positive rfl
    rw [eager_update]
    dsimp only
    obtain rfl | ⟨stage, runs, left⟩ := due
    · exact .inl ⟨(Nat.sub_le _ _).trans small, .inl rfl⟩
    · by_cases expired : counter ≤ min gap 255
      · refine .inr ⟨decide_eq_true ⟨runs, expired⟩, ?_⟩
        rw [Nat.sub_eq_zero_of_le expired]
        by_cases same : raw = cooked
        · rw [same, eager_transfer_self]
          exact ⟨Nat.zero_le _, .inl rfl⟩
        · rw [eager_transfer_free same]
          exact ⟨le_refl d, .inl (accepts _ _ same)⟩
      · exact .inl ⟨by omega, .inr ⟨stage, by omega, by omega⟩⟩
  · rintro k raw cooked counter ⟨small, same | ⟨-, runs, left⟩⟩
    · exact ⟨small, .inl same⟩
    · exact absurd (Nat.le_zero.mp left) runs
  · rintro b raw cooked counter ⟨-, same | ⟨stage, -⟩⟩
    · exact same
    · exact absurd rfl stage

theorem settles_deferPk {d window : Nat} (pos : 0 < d) (le : d ≤ 255) (fits : d ≤ window) :
    (deferPk d).Settles id d window 1 (dueOnce d) := by
  constructor
  · exact le
  · exact fun k b raw cooked counter due => due.1
  · rintro k b raw cooked counter ⟨-, same | ⟨-, runs, -⟩⟩ differs
    · exact absurd same differs
    · exact runs
  · rintro k b b' raw cooked counter le ⟨small, due⟩
    exact ⟨small, due.imp_right fun ⟨stage, runs, left⟩ => ⟨stage, runs, left.trans le⟩⟩
  · exact fun k b raw counter small => ⟨small, .inl rfl⟩
  · intro elapsed raw cooked counter
    rw [deferPk_update]
    exact Nat.sub_le _ _
  · intro elapsed raw cooked counter
    rw [deferPk_update]
    exact fun runs => decide_eq_true (Nat.lt_of_sub_ne_zero runs)
  · intro raw cooked counter
    by_cases same : raw = cooked
    · rw [same, deferPk_transfer_self]
      exact fun runs => absurd rfl runs
    · rw [deferPk_transfer_ne same]
      by_cases free : counter = 0
      · exact fun _ => .inl (decide_eq_true free)
      · exact fun _ => .inr free
  · intro raw cooked counter small
    by_cases same : raw = cooked
    · rw [same, deferPk_transfer_self]
      exact ⟨Nat.zero_le _, .inl rfl⟩
    · rw [deferPk_transfer_ne same]
      dsimp only
      split
      · exact ⟨le_refl d, .inr ⟨one_ne_zero, pos.ne', fits⟩⟩
      next runs => exact ⟨small, .inr ⟨one_ne_zero, runs, small.trans fits⟩⟩
  · rintro k b raw cooked counter ⟨small, due⟩
    by_cases same : raw = cooked
    · rw [same, deferPk_transfer_self]
      exact ⟨Nat.zero_le _, .inl rfl⟩
    · obtain ⟨stage, runs, left⟩ := due.resolve_left fun eq => same eq.symm
      rw [deferPk_transfer_ne same, if_neg runs]
      exact ⟨small, .inr ⟨stage, runs, left⟩⟩
  · rintro k b raw cooked counter gap _ ⟨small, due⟩ positive rfl
    rw [deferPk_update]
    dsimp only
    left
    by_cases expired : counter ≠ 0 ∧ counter ≤ min gap 255
    · rw [if_pos expired]
      exact ⟨(Nat.sub_le _ _).trans small, .inl rfl⟩
    · rw [if_neg expired]
      refine ⟨(Nat.sub_le _ _).trans small, due.imp_right fun ⟨stage, runs, left⟩ => ⟨stage, ?_⟩⟩
      rw [not_and] at expired
      have waits := expired runs
      omega
  · rintro k raw cooked counter ⟨small, same | ⟨-, runs, left⟩⟩
    · exact ⟨small, .inl same⟩
    · exact absurd (Nat.le_zero.mp left) runs
  · rintro b raw cooked counter ⟨-, same | ⟨stage, -⟩⟩
    · exact same
    · exact absurd rfl stage

/-- A key of `asym_eager_defer_pk.c`: a release comes after what is left of the time after the press,
and has to last then. -/
def dueTwice (d k b : Nat) (raw cooked : Bool) (counter : AsymCounter) : Prop :=
  counter.time ≤ d ∧ (cooked = raw ∨ counter.time ≠ 0 ∧
    (counter.pressed = true ∧ 2 ≤ k ∧ counter.time ≤ b ∨ counter.pressed = false ∧ k ≠ 0 ∧ (k = 1 → counter.time ≤ b)))

/-- A counter that does not run starts: a press is accepted, a release has to last. -/
theorem asym_free {d k b : Nat} {raw cooked pressed : Bool} (pos : 0 < d) (stage : 2 ≤ k) (ne : raw ≠ cooked) :
    dueTwice d k b raw ((asym d).transfer raw cooked ⟨pressed, 0⟩).cooked
      ((asym d).transfer raw cooked ⟨pressed, 0⟩).counter := by
  cases raw with
  | true =>
    obtain rfl : cooked = false := by simpa using ne.symm
    rw [asym_transfer_press]
    exact ⟨le_refl d, .inl rfl⟩
  | false =>
    obtain rfl : cooked = true := by simpa using ne.symm
    rw [asym_transfer_release]
    exact ⟨le_refl d, .inr ⟨pos.ne', .inr ⟨rfl, by omega, fun last => by omega⟩⟩⟩

theorem settles_asym {d window : Nat} (pos : 0 < d) (le : d ≤ 255) (fits : d ≤ window) :
    (asym d).Settles AsymCounter.time d window 2 (dueTwice d) := by
  constructor
  · exact le
  · exact fun k b raw cooked counter due => due.1
  · rintro k b raw cooked counter ⟨-, same | ⟨runs, -⟩⟩ differs
    · exact absurd same differs
    · exact runs
  · rintro k b b' raw cooked counter le ⟨small, due⟩
    refine ⟨small, due.imp_right fun ⟨runs, how⟩ => ⟨runs, how.imp ?_ ?_⟩⟩
    · exact fun ⟨press, stage, left⟩ => ⟨press, stage, left.trans le⟩
    · exact fun ⟨release, stage, left⟩ => ⟨release, stage, fun last => (left last).trans le⟩
  · exact fun k b raw counter small => ⟨small, .inl rfl⟩
  · intro elapsed raw cooked counter
    rw [asym_update]
    exact Nat.sub_le _ _
  · intro elapsed raw cooked counter
    rw [asym_update]
    exact fun runs => decide_eq_true (Nat.lt_of_sub_ne_zero runs)
  · rintro raw cooked ⟨pressed, time⟩
    by_cases same : raw = cooked
    · rw [same, asym_transfer_self]
      cases pressed with
      | true => exact .inr
      | false => exact fun runs => absurd rfl runs
    · by_cases free : time = 0
      · subst free
        revert same
        cases raw <;> cases cooked <;> exact fun same => by first | exact absurd rfl same | exact fun _ => .inl rfl
      · exact fun _ => .inr free
  · rintro raw cooked ⟨pressed, time⟩ small
    by_cases same : raw = cooked
    · rw [same, asym_transfer_self]
      refine ⟨?_, .inl rfl⟩
      cases pressed with
      | true => exact small
      | false => exact Nat.zero_le _
    · by_cases free : time = 0
      · subst free
        exact asym_free pos (le_refl 2) same
      · rw [asym_transfer_running same free]
        refine ⟨small, .inr ⟨free, ?_⟩⟩
        cases pressed with
        | true => exact .inl ⟨rfl, le_refl 2, small.trans fits⟩
        | false => exact .inr ⟨rfl, two_ne_zero, fun last => absurd last (by decide)⟩
  · rintro k b raw cooked ⟨pressed, time⟩ ⟨small, due⟩
    by_cases same : raw = cooked
    · rw [same, asym_transfer_self]
      refine ⟨?_, .inl rfl⟩
      cases pressed with
      | true => exact small
      | false => exact Nat.zero_le _
    · have due := due.resolve_left fun eq => same eq.symm
      rw [asym_transfer_running same due.1]
      exact ⟨small, .inr due⟩
  · rintro k b raw cooked ⟨pressed, time⟩ gap _ ⟨small, due⟩ positive rfl
    rw [asym_update]
    dsimp only at small due ⊢
    by_cases same : cooked = raw
    · rw [same, ite_self]
      exact .inl ⟨(Nat.sub_le _ _).trans small, .inl rfl⟩
    · obtain ⟨runs, ⟨rfl, stage, left⟩ | ⟨rfl, stage, left⟩⟩ := due.resolve_left same
      · rw [if_neg (by simp)]
        by_cases expired : time ≤ min gap 255
        · refine .inr ⟨decide_eq_true ⟨⟨runs, expired⟩, rfl⟩, ?_⟩
          rw [Nat.sub_eq_zero_of_le expired]
          exact asym_free pos stage (Ne.symm same)
        · exact .inl ⟨(Nat.sub_le _ _).trans small, .inr ⟨by dsimp only; omega, .inl ⟨rfl, stage, by dsimp only; omega⟩⟩⟩
      · left
        by_cases expired : time ≤ min gap 255
        · rw [if_pos ⟨⟨runs, expired⟩, rfl⟩]
          exact ⟨(Nat.sub_le _ _).trans small, .inl rfl⟩
        · rw [if_neg fun both => expired both.1.2]
          refine ⟨(Nat.sub_le _ _).trans small, .inr ⟨by dsimp only; omega, .inr ⟨rfl, stage, fun last => ?_⟩⟩⟩
          have before := left last
          dsimp only
          omega
  · rintro k raw cooked ⟨pressed, time⟩ ⟨small, due⟩
    refine ⟨small, due.imp_right fun ⟨runs, how⟩ => ⟨runs, .inr ?_⟩⟩
    obtain ⟨-, -, left⟩ | ⟨release, stage, left⟩ := how
    · exact absurd (Nat.le_zero.mp left) runs
    · have more : k ≠ 1 := fun last => runs (Nat.le_zero.mp (left last))
      exact ⟨release, by omega, fun _ => small.trans fits⟩
  · rintro b raw cooked counter ⟨-, same | ⟨-, ⟨-, stage, -⟩ | ⟨-, stage, -⟩⟩⟩
    · exact same
    · exact absurd stage (by decide)
    · exact absurd rfl stage

/-! ## The common frame -/

namespace Frame

variable {bodies : Bodies V K} {time : K → Nat} {d window stages : Nat} {due : Nat → Nat → V → V → K → Prop}
  {raw cooked : I → V} {changed : Bool} {k b now gap : Nat} {s : Frame fast I K}

/-- Every cell is due, and the counters that run are known to. -/
structure Due (time : K → Nat) (due : Nat → Nat → V → V → K → Prop) (k b : Nat) (raw cooked : I → V)
    (s : Frame fast I K) : Prop where
  cells : ∀ i, due k b (raw i) (cooked i) (s.counters i)
  runs : ∀ i, time (s.counters i) ≠ 0 → s.countersNeedUpdate = true

/-- The counters run from the last call on. -/
def Stamped (s : Frame fast I K) (now : Nat) : Prop := s.countersNeedUpdate = true → s.lastTime = BitVec.ofNat fast now

theorem update_runs (settles : bodies.Settles time d window stages due) {elapsed : Nat} (i : I)
    (on : time ((s.update bodies raw cooked elapsed).1.counters i) ≠ 0) :
    (s.update bodies raw cooked elapsed).1.countersNeedUpdate = true :=
  decide_eq_true ⟨i, settles.update_runs _ _ _ _ on⟩

/-- **The first part**: a cell is due, or it is when the second part has treated it, which will come. -/
theorem elapse_due (settles : bodies.Settles time d window stages due) (h : s.Due time due k b raw cooked)
    (passed : s.countersNeedUpdate = true → (BitVec.ofNat fast now - s.lastTime).toNat = gap) (i : I) :
    due k (b - gap) (raw i) ((s.elapse bodies raw cooked now).2.1 i) ((s.elapse bodies raw cooked now).1.counters i) ∨
      (s.elapse bodies raw cooked now).1.matrixNeedUpdate = true ∧
        due k (b - gap) (raw i)
          (bodies.transfer (raw i) ((s.elapse bodies raw cooked now).2.1 i)
            ((s.elapse bodies raw cooked now).1.counters i)).cooked
          (bodies.transfer (raw i) ((s.elapse bodies raw cooked now).2.1 i)
            ((s.elapse bodies raw cooked now).1.counters i)).counter := by
  have cell := h.cells i
  unfold elapse
  split
  next runs =>
    have eq := passed runs
    dsimp only
    split
    next pos =>
      rw [eq] at pos ⊢
      obtain now | later := settles.update k b (raw i) (cooked i) (s.counters i) gap _ cell (by omega) rfl
      · exact .inl now
      · exact .inr ⟨decide_eq_true ⟨i, later.1⟩, later.2⟩
    next none =>
      have zero : gap = 0 := by omega
      rw [zero]
      exact .inl cell
  next off =>
    left
    have same : cooked i = raw i := by
      by_contra differs
      exact off (h.runs i (settles.runs _ _ _ _ _ cell differs))
    have small := settles.bounded _ _ _ _ _ cell
    change due k (b - gap) (raw i) (cooked i) (s.counters i)
    rw [same]
    exact settles.settled _ _ _ _ small

/-- After the first part -/
theorem elapse_runs (settles : bodies.Settles time d window stages due)
    (runs : ∀ i, time (s.counters i) ≠ 0 → s.countersNeedUpdate = true) (small : ∀ i, time (s.counters i) ≤ d) :
    (∀ i, time ((s.elapse bodies raw cooked now).1.counters i) ≠ 0 →
        (s.elapse bodies raw cooked now).1.countersNeedUpdate = true) ∧
      (∀ i, time ((s.elapse bodies raw cooked now).1.counters i) ≤ d) ∧
      (s.elapse bodies raw cooked now).1.Stamped now := by
  unfold elapse
  split
  · dsimp only
    split
    · exact ⟨update_runs settles, fun i => (settles.update_time _ _ _ _).trans (small i), fun _ => rfl⟩
    · exact ⟨runs, small, fun _ => rfl⟩
  next off => exact ⟨runs, small, fun on => absurd on off⟩

/-- After the second part -/
theorem transfer_runs (settles : bodies.Settles time d window stages due)
    (runs : ∀ i, time (s.counters i) ≠ 0 → s.countersNeedUpdate = true) (i : I)
    (on : time ((s.transfer bodies raw cooked).1.counters i) ≠ 0) :
    (s.transfer bodies raw cooked).1.countersNeedUpdate = true := by
  unfold transfer at on ⊢
  dsimp only at on ⊢
  rw [Bool.or_eq_true, decide_eq_true_iff]
  obtain started | before := settles.transfer_runs _ _ _ on
  · exact .inr ⟨i, started⟩
  · exact .inl (runs i before)

/-- **What a call does**: with the raw matrix as it was, every cell comes closer to being settled by the
time that has passed; and a changed raw matrix starts the counters of the cells that differ. -/
theorem debounce_due (settles : bodies.Settles time d window stages due)
    (runs : ∀ i, time (s.counters i) ≠ 0 → s.countersNeedUpdate = true) (small : ∀ i, time (s.counters i) ≤ d) :
    (s.debounce bodies raw cooked changed now).1.Stamped now ∧
      (s.Due time due k b raw cooked →
        (s.countersNeedUpdate = true → (BitVec.ofNat fast now - s.lastTime).toNat = gap) →
        (s.debounce bodies raw cooked changed now).1.Due time due k (b - gap) raw
          (s.debounce bodies raw cooked changed now).2.1) ∧
      (changed = true → (s.debounce bodies raw cooked changed now).1.Due time due stages window raw
        (s.debounce bodies raw cooked changed now).2.1) := by
  obtain ⟨runs', small', stamped⟩ := @elapse_runs fast I V K _ bodies time d window stages due raw cooked now s settles
    runs small
  have first : s.Due time due k b raw cooked →
      (s.countersNeedUpdate = true → (BitVec.ofNat fast now - s.lastTime).toNat = gap) → _ :=
    fun h passed => @elapse_due fast I V K _ bodies time d window stages due raw cooked k b now gap s settles h passed
  unfold debounce
  generalize s.elapse bodies raw cooked now = r at runs' small' stamped first ⊢
  obtain ⟨t, middle, said⟩ := r
  dsimp only at runs' small' stamped first ⊢
  split
  next gate =>
    have runs'' : ∀ i, _ := @transfer_runs fast I V K _ bodies time d window stages due raw middle
      { t with lastTime := BitVec.ofNat fast now } settles runs'
    refine ⟨fun _ => rfl, fun h passed => ⟨fun i => ?_, runs''⟩, fun _ => ⟨fun i => ?_, runs''⟩⟩
    · obtain cell | later := first h passed i
      · exact settles.keep _ _ _ _ _ cell
      · exact later.2
    · exact settles.start _ _ _ (small' i)
  next gate =>
    rw [Bool.or_eq_true, not_or] at gate
    refine ⟨stamped, fun h passed => ⟨fun i => ?_, runs'⟩, fun change => absurd change gate.1⟩
    obtain cell | later := first h passed i
    · exact cell
    · exact absurd later.1 gate.2

end Frame

/-! ## The files -/

/-- What a file does as time passes, in terms of an invariant of its variables and of what is due. -/
structure File.Settles (file : File rows cols) (good : Nat → Prop) (window stages : Nat)
    (Inv : (lastRaw cooked : Matrix rows cols) → file.State → Prop)
    (Due : Nat → Nat → (raw cooked : Matrix rows cols) → file.State → (now : Nat) → Prop) : Prop where
  init : Inv (fun _ _ => false) (fun _ _ => false) file.init
  call : ∀ raw lastRaw cooked s now, Inv lastRaw cooked s →
    Inv raw (file.debounce raw cooked (decide (raw ≠ lastRaw)) now s).2.1
        (file.debounce raw cooked (decide (raw ≠ lastRaw)) now s).1 ∧
      Due stages window raw (file.debounce raw cooked (decide (raw ≠ lastRaw)) now s).2.1
        (file.debounce raw cooked (decide (raw ≠ lastRaw)) now s).1 now
  tick : ∀ k b raw cooked s now t, Due k b raw cooked s now → now < t → good (t - now) →
    Due k (b - (t - now)) raw (file.debounce raw cooked false t s).2.1 (file.debounce raw cooked false t s).1 t
  next : ∀ k raw cooked s now, Due k 0 raw cooked s now → Due (k - 1) window raw cooked s now
  done : ∀ b raw cooked s now, Due 0 b raw cooked s now → cooked = raw

/-- **A file that settles converges**: when all stages are over, the raw matrix is the cooked one. -/
theorem File.Settles.converges {file : File rows cols} {good : Nat → Prop} {window stages : Nat}
    {Inv : Matrix rows cols → Matrix rows cols → file.State → Prop}
    {Due : Nat → Nat → Matrix rows cols → Matrix rows cols → file.State → Nat → Prop}
    (settles : file.Settles good window stages Inv Due) (prior : List (Call rows cols)) (raw : Matrix rows cols)
    {now : Nat} {later : List Nat} (advances : Advances good now later) (long : stages ≤ windows window now later) :
    ((now :: later).foldl (fun x t => x.step ⟨raw, t⟩) (prior.foldl World.step (World.start file))).cooked = raw := by
  have inv : ∀ (calls : List (Call rows cols)) (x : World file), Inv x.lastRaw x.cooked x.state →
      Inv (calls.foldl World.step x).lastRaw (calls.foldl World.step x).cooked (calls.foldl World.step x).state := by
    intro calls
    induction calls with
    | nil => exact fun _ h => h
    | cons c calls ih => exact fun x h => ih _ (settles.call c.raw x.lastRaw x.cooked x.state c.now h).1
  have before := inv prior (World.start file) settles.init
  generalize prior.foldl World.step (World.start file) = x at before
  have first := (settles.call raw x.lastRaw x.cooked x.state now before).2
  obtain ⟨b, last, due⟩ := @due_windows (World file) (fun x t => x.step ⟨raw, t⟩) good window
    (fun k b y t => y.lastRaw = raw ∧ Due k b raw y.cooked y.state t)
    (fun k b y now t h lt gap => ⟨rfl, by
      have ticked := settles.tick k b raw y.cooked y.state now t h.2 lt gap
      unfold World.step World.call
      rw [h.1]
      simpa using ticked⟩)
    (fun k y now h => ⟨h.1, settles.next k raw y.cooked y.state now h.2⟩) later stages now now (x.step ⟨raw, now⟩)
    (le_refl now) ⟨rfl, by rwa [Nat.add_sub_cancel_left]⟩ advances
  rw [Nat.sub_eq_zero_of_le long] at due
  exact settles.done _ _ _ _ _ due.2

theorem settles_none (good : Nat → Prop) (window : Nat) :
    (none : File rows cols).Settles good window 0 (fun _ _ _ => True) (fun _ _ raw cooked _ _ => cooked = raw) where
  init := trivial
  call _ _ _ _ _ _ := ⟨trivial, rfl⟩
  tick _ _ _ _ _ _ _ _ _ _ := rfl
  next _ _ _ _ _ h := h
  done _ _ _ _ _ h := h

/-- The files with the frame, over any cells: a call in the middle of a run -/
theorem Frame.call_due {bodies : Bodies V K} {time : K → Nat} {d window stages : Nat} {due : Nat → Nat → V → V → K → Prop}
    (settles : bodies.Settles time d window stages due) {lastRaw cooked : I → V} {s : Frame fast I K} (raw : I → V)
    (changed : Bool) (now : Nat) (still : changed = false → raw = lastRaw) (h : s.Due time due stages window lastRaw cooked) :
    (s.debounce bodies raw cooked changed now).1.Due time due stages window raw
        (s.debounce bodies raw cooked changed now).2.1 ∧
      (s.debounce bodies raw cooked changed now).1.Stamped now := by
  obtain ⟨stamped, same, change⟩ := @Frame.debounce_due fast I V K _ bodies time d window stages due raw cooked changed
    stages window now (BitVec.ofNat fast now - s.lastTime).toNat s settles h.runs
    fun i => settles.bounded _ _ _ _ _ (h.cells i)
  refine ⟨?_, stamped⟩
  cases changed with
  | true => exact change rfl
  | false =>
    obtain rfl := still rfl
    have after := same h fun _ => rfl
    exact ⟨fun i => settles.mono _ _ _ _ _ _ (Nat.sub_le _ _) (after.cells i), after.runs⟩

/-- A call while the raw matrix stays as it is -/
theorem Frame.tick_due {bodies : Bodies V K} {time : K → Nat} {d window stages k b now t : Nat}
    {due : Nat → Nat → V → V → K → Prop} (settles : bodies.Settles time d window stages due) {raw cooked : I → V}
    {s : Frame fast I K} (h : s.Due time due k b raw cooked) (stamped : s.Stamped now) (lt : now < t)
    (gap : t - now < 2 ^ fast) :
    (s.debounce bodies raw cooked false t).1.Due time due k (b - (t - now)) raw
        (s.debounce bodies raw cooked false t).2.1 ∧
      (s.debounce bodies raw cooked false t).1.Stamped t := by
  obtain ⟨stamped', ticked, -⟩ := @Frame.debounce_due fast I V K _ bodies time d window stages due raw cooked false
    k b t (t - now) s settles h.runs fun i => settles.bounded _ _ _ _ _ (h.cells i)
  exact ⟨ticked h fun runs => by rw [stamped runs, elapsed_eq lt.le gap], stamped'⟩

theorem settles_perKey {bodies : Bodies Bool K} {time : K → Nat} {d window stages : Nat}
    {due : Nat → Nat → Bool → Bool → K → Prop} (settles : bodies.Settles time d window stages due) {elapsed : K}
    (zero : time elapsed = 0) :
    (perKey fast elapsed bodies : File rows cols).Settles (fun gap => gap < 2 ^ fast) window stages
      (fun lastRaw cooked s => Frame.Due time due stages window (fun key => lastRaw key.1 key.2)
        (fun key => cooked key.1 key.2) s)
      (fun k b raw cooked s now => Frame.Due time due k b (fun key => raw key.1 key.2) (fun key => cooked key.1 key.2) s ∧
        Frame.Stamped s now) where
  init := by
    refine ⟨fun key => settles.settled _ _ _ _ ?_, fun key on => absurd zero on⟩
    change time elapsed ≤ d
    rw [zero]
    exact Nat.zero_le d
  call raw lastRaw cooked s now h := by
    have after := Frame.call_due settles (fun key : Fin rows × Fin cols => raw key.1 key.2) (decide (raw ≠ lastRaw)) now
      (fun same => by rw [not_not.mp (of_decide_eq_false same)]) h
    exact ⟨after.1, after⟩
  tick k b raw cooked s now t h lt gap := Frame.tick_due settles h.1 h.2 lt gap
  next k raw cooked s now h := ⟨⟨fun i => settles.next _ _ _ _ (h.1.cells i), h.1.runs⟩, h.2⟩
  done b raw cooked s now h := by
    funext r c
    exact settles.done _ _ _ _ (h.1.cells (r, c))

theorem settles_eagerPr {DEBOUNCE : Nat} :
    (symEagerPr fast (DEBOUNCE + 1) : File rows cols).Settles (fun gap => gap < 2 ^ fast) (DEBOUNCE + 1) 1
      (fun lastRaw cooked s => Frame.Due id (dueOnce (min (DEBOUNCE + 1) 255)) 1 (DEBOUNCE + 1) lastRaw cooked s)
      (fun k b raw cooked s now => Frame.Due id (dueOnce (min (DEBOUNCE + 1) 255)) k b raw cooked s ∧
        Frame.Stamped s now) := by
  have settles : (eager (@acceptRow cols) (min (DEBOUNCE + 1) 255)).Settles id (min (DEBOUNCE + 1) 255)
      (DEBOUNCE + 1) 1 (dueOnce (min (DEBOUNCE + 1) 255)) :=
    settles_eager (by omega) (Nat.min_le_right _ _) (Nat.min_le_left _ _) fun _ _ _ => rfl
  exact {
    init := ⟨fun r => settles.settled _ _ _ _ (Nat.zero_le _), fun r on => absurd rfl on⟩
    call := fun raw lastRaw cooked s now h =>
      have after := Frame.call_due settles raw (decide (raw ≠ lastRaw)) now
        (fun same => not_not.mp (of_decide_eq_false same)) h
      ⟨after.1, after⟩
    tick := fun k b raw cooked s now t h lt gap => Frame.tick_due settles h.1 h.2 lt gap
    next := fun k raw cooked s now h => ⟨⟨fun i => settles.next _ _ _ _ (h.1.cells i), h.1.runs⟩, h.2⟩
    done := fun b raw cooked s now h => funext fun r => settles.done _ _ _ _ (h.1.cells r) }

/-- What is due in `sym_defer_g.c`: the matrices are the same, or the time that has passed since the
last change is less than `DEBOUNCE`, and not in `b`. -/
def dueG (DEBOUNCE k b : Nat) (raw cooked : Matrix rows cols) (s : DeferG fast) (now : Nat) : Prop :=
  cooked = raw ∨ k ≠ 0 ∧ s.debouncing = true ∧ (BitVec.ofNat fast now - s.debouncingTime).toNat < DEBOUNCE ∧
    DEBOUNCE ≤ (BitVec.ofNat fast now - s.debouncingTime).toNat + b

theorem DeferG.debounce_changed {DEBOUNCE now : Nat} {raw cooked : Matrix rows cols} {changed : Bool} {s : DeferG fast} :
    s.debounce DEBOUNCE raw cooked changed now =
      (if changed then ⟨true, BitVec.ofNat fast now⟩ else s : DeferG fast).debounce DEBOUNCE raw cooked false now := by
  cases changed <;> rfl

/-- A call after it has seen that the raw matrix changed -/
theorem DeferG.debounce_due {DEBOUNCE k b now : Nat} {raw cooked : Matrix rows cols} {s : DeferG fast}
    (h : cooked = raw ∨ k ≠ 0 ∧ s.debouncing = true ∧
      DEBOUNCE ≤ (BitVec.ofNat fast now - s.debouncingTime).toNat + b) :
    dueG DEBOUNCE k b raw (s.debounce DEBOUNCE raw cooked false now).2.1 (s.debounce DEBOUNCE raw cooked false now).1 now := by
  unfold DeferG.debounce
  rw [if_neg Bool.false_ne_true]
  dsimp only
  split
  next => exact .inl rfl
  next waits =>
    rw [Bool.and_eq_true, decide_eq_true_iff, not_and, not_le] at waits
    obtain same | ⟨stage, on, left⟩ := h
    · exact .inl same
    · exact .inr ⟨stage, on, waits on, left⟩

theorem DeferG.call_due {DEBOUNCE now : Nat} {raw lastRaw cooked : Matrix rows cols} {s : DeferG fast}
    (h : cooked = lastRaw ∨ s.debouncing = true) :
    dueG DEBOUNCE 1 DEBOUNCE raw (s.debounce DEBOUNCE raw cooked (decide (raw ≠ lastRaw)) now).2.1
      (s.debounce DEBOUNCE raw cooked (decide (raw ≠ lastRaw)) now).1 now := by
  rw [DeferG.debounce_changed]
  refine DeferG.debounce_due ?_
  by_cases same : raw = lastRaw
  · rw [if_neg (by simpa using same), same]
    exact h.imp_right fun on => ⟨one_ne_zero, on, Nat.le_add_left _ _⟩
  · rw [if_pos (by simpa using same)]
    exact .inr ⟨one_ne_zero, rfl, Nat.le_add_left _ _⟩

theorem settles_deferG {DEBOUNCE : Nat} :
    (symDeferG fast (DEBOUNCE + 1) : File rows cols).Settles (fun gap => gap + (DEBOUNCE + 1) ≤ 2 ^ fast) (DEBOUNCE + 1) 1
      (fun lastRaw cooked s => cooked = lastRaw ∨ DeferG.debouncing s = true)
      (fun k b raw cooked s now => dueG (DEBOUNCE + 1) k b raw cooked s now) where
  init := .inl rfl
  call raw lastRaw cooked s now h := by
    have due := @DeferG.call_due rows cols fast (DEBOUNCE + 1) now raw lastRaw cooked s h
    exact ⟨due.imp_right fun running => running.2.1, due⟩
  tick k b raw cooked s now t h lt gap := by
    refine @DeferG.debounce_due rows cols fast _ k _ t raw cooked s (h.imp_right fun ⟨stage, on, recent, left⟩ =>
      ⟨stage, on, ?_⟩)
    rw [elapsed_add _ lt.le, Nat.mod_eq_of_lt (by omega)]
    omega
  next k raw cooked s now h := h.imp_right fun ⟨stage, on, recent, left⟩ => absurd left (by omega)
  done b raw cooked s now h := h.resolve_right fun due => due.1 rfl

/-- A row of `sym_defer_pr.c` that does not change -/
theorem DeferPr.row_still {DEBOUNCE d k b gap countdown : Nat} {raw cooked : Fin cols → Bool} (le : d ≤ 255)
    (h : dueOnce d k b raw cooked countdown) :
    dueOnce d k (b - gap) raw (DeferPr.row DEBOUNCE (min gap 255) raw raw cooked countdown).2.1
      (DeferPr.row DEBOUNCE (min gap 255) raw raw cooked countdown).1 := by
  obtain ⟨small, due⟩ := h
  unfold DeferPr.row
  rw [if_neg (not_not.mpr rfl)]
  split
  next waits => exact ⟨by dsimp only; omega, due.imp_right fun ⟨stage, runs, left⟩ => ⟨stage, by dsimp only; omega, by dsimp only; omega⟩⟩
  next ended =>
    split
    next => exact ⟨Nat.zero_le _, .inl rfl⟩
    next off => exact ⟨small, due.imp_right fun ⟨stage, runs, left⟩ => absurd runs off⟩

/-- A row of `sym_defer_pr.c` that changes -/
theorem DeferPr.row_changed {DEBOUNCE elapsed countdown : Nat} {raw lastRaw cooked : Fin cols → Bool}
    (pos : DEBOUNCE % 2 ^ 8 ≠ 0) (ne : raw ≠ lastRaw) :
    dueOnce (DEBOUNCE % 2 ^ 8) 1 DEBOUNCE raw (DeferPr.row DEBOUNCE elapsed raw lastRaw cooked countdown).2.1
      (DeferPr.row DEBOUNCE elapsed raw lastRaw cooked countdown).1 := by
  unfold DeferPr.row
  rw [if_pos ne]
  exact ⟨le_refl _, .inr ⟨one_ne_zero, pos, Nat.mod_le _ _⟩⟩

theorem settles_deferPr {start DEBOUNCE : Nat} (pos : DEBOUNCE % 2 ^ 8 ≠ 0) :
    (symDeferPr start DEBOUNCE : File rows cols).Settles (fun gap => gap < 2 ^ 16) DEBOUNCE 1
      (fun lastRaw cooked s => DeferPr.lastRaw s = lastRaw ∧
        ∀ r, dueOnce (DEBOUNCE % 2 ^ 8) 1 DEBOUNCE (lastRaw r) (cooked r) (DeferPr.countdowns s r))
      (fun k b raw cooked s now => DeferPr.lastRaw s = raw ∧ DeferPr.lastTime s = BitVec.ofNat 16 now ∧
        ∀ r, dueOnce (DEBOUNCE % 2 ^ 8) k b (raw r) (cooked r) (DeferPr.countdowns s r)) := by
  have small : DEBOUNCE % 2 ^ 8 ≤ 255 := Nat.le_of_lt_succ (Nat.mod_lt _ (by decide))
  constructor
  · exact ⟨rfl, fun r => ⟨Nat.zero_le _, .inl rfl⟩⟩
  · rintro raw lastRaw cooked s now ⟨rfl, rows_due⟩
    have after : ∀ r, dueOnce (DEBOUNCE % 2 ^ 8) 1 DEBOUNCE (raw r)
        (DeferPr.row DEBOUNCE (min (BitVec.ofNat 16 now - s.lastTime).toNat 255) (raw r) (s.lastRaw r) (cooked r)
          (s.countdowns r)).2.1
        (DeferPr.row DEBOUNCE (min (BitVec.ofNat 16 now - s.lastTime).toNat 255) (raw r) (s.lastRaw r) (cooked r)
          (s.countdowns r)).1 := by
      intro r
      by_cases same : raw r = s.lastRaw r
      · rw [same]
        obtain ⟨bound, due⟩ := @DeferPr.row_still cols DEBOUNCE _ _ _ (BitVec.ofNat 16 now - s.lastTime).toNat _ _ _
          small (rows_due r)
        exact ⟨bound, due.imp_right fun ⟨stage, runs, left⟩ => ⟨stage, runs, left.trans (Nat.sub_le _ _)⟩⟩
      · exact DeferPr.row_changed pos same
    exact ⟨⟨rfl, after⟩, rfl, rfl, after⟩
  · rintro k b raw cooked s now t ⟨rfl, stamped, rows_due⟩ lt gap
    refine ⟨rfl, rfl, fun r => ?_⟩
    have elapsed : (BitVec.ofNat 16 t - s.lastTime).toNat = t - now := by
      rw [stamped, elapsed_eq lt.le gap]
    have row := @DeferPr.row_still cols DEBOUNCE _ _ _ (t - now) _ _ _ small (rows_due r)
    rw [← elapsed] at row
    rw [← elapsed]
    exact row
  · rintro k raw cooked s now ⟨last, stamped, rows_due⟩
    refine ⟨last, stamped, fun r => ⟨(rows_due r).1, (rows_due r).2.imp_right fun ⟨stage, runs, left⟩ => ?_⟩⟩
    exact absurd (Nat.le_zero.mp left) runs
  · rintro b raw cooked s now ⟨-, -, rows_due⟩
    funext r
    exact (rows_due r).2.resolve_right fun due => due.1 rfl

/-! ## The seven files -/

/-- How many stages a file has: the time runs once, and twice after a press in
`asym_eager_defer_pk.c`. -/
def Algorithm.stages : Algorithm → (DEBOUNCE : Nat) → Nat
  | .none, _ => 0
  | .symDeferPr, _ => 1
  | _, 0 => 0
  | .asymEagerDeferPk, _ + 1 => 2
  | _, _ + 1 => 1

/-- The gaps between two calls that the timer of a file can tell -/
def Algorithm.GapOk (fast : Nat) : Algorithm → (DEBOUNCE gap : Nat) → Prop
  | .none, _, _ => True
  | .symDeferPr, _, gap => gap < 2 ^ 16
  | _, 0, _ => True
  | .symDeferG, d + 1, gap => gap + (d + 1) ≤ 2 ^ fast
  | _, _ + 1, gap => gap < 2 ^ fast

theorem Algorithm.settles {start : Nat} (a : Algorithm) (DEBOUNCE : Nat) (fits : a = .symDeferPr → DEBOUNCE % 2 ^ 8 ≠ 0) :
    ∃ Inv Due, (a.file fast start DEBOUNCE : File rows cols).Settles (a.GapOk fast DEBOUNCE) DEBOUNCE (a.stages DEBOUNCE)
      Inv Due := by
  match a, DEBOUNCE with
  | .none, _ => exact ⟨_, _, settles_none _ _⟩
  | .symDeferG, 0 => exact ⟨_, _, settles_none _ _⟩
  | .symDeferG, d + 1 => exact ⟨_, _, settles_deferG⟩
  | .symDeferPr, _ => exact ⟨_, _, settles_deferPr (fits rfl)⟩
  | .symDeferPk, 0 => exact ⟨_, _, settles_none _ _⟩
  | .symDeferPk, d + 1 =>
    exact ⟨_, _, settles_perKey (settles_deferPk (by omega) (Nat.min_le_right _ _) (Nat.min_le_left _ _)) rfl⟩
  | .symEagerPr, 0 => exact ⟨_, _, settles_none _ _⟩
  | .symEagerPr, d + 1 => exact ⟨_, _, settles_eagerPr⟩
  | .symEagerPk, 0 => exact ⟨_, _, settles_none _ _⟩
  | .symEagerPk, d + 1 =>
    refine ⟨_, _, settles_perKey (settles_eager (by omega) (Nat.min_le_right _ _) (Nat.min_le_left _ _) fun raw cooked ne => ?_) rfl⟩
    unfold acceptKey
    cases raw <;> cases cooked <;> simp_all
  | .asymEagerDeferPk, 0 => exact ⟨_, _, settles_none _ _⟩
  | .asymEagerDeferPk, d + 1 =>
    exact ⟨_, _, settles_perKey (settles_asym (by omega) (by omega) (Nat.min_le_left _ _)) rfl⟩

/-- **Convergence**: after any run, a raw matrix that stays as it is while `debounce` is called at later
and later times is the cooked matrix as soon as all stages are over, and from then on. -/
theorem debounce_converges {start : Nat} (a : Algorithm) {DEBOUNCE : Nat}
    (fits : a = .symDeferPr → DEBOUNCE % 2 ^ 8 ≠ 0) (prior : List (Call rows cols)) (raw : Matrix rows cols)
    {now : Nat} {later : List Nat} (advances : Advances (a.GapOk fast DEBOUNCE) now later)
    (long : a.stages DEBOUNCE ≤ windows DEBOUNCE now later) :
    ((now :: later).foldl (fun x t => x.step ⟨raw, t⟩)
      (prior.foldl World.step (World.start (a.file fast start DEBOUNCE)))).cooked = raw := by
  obtain ⟨Inv, Due, settles⟩ := @Algorithm.settles rows cols fast start a DEBOUNCE fits
  exact settles.converges prior raw advances long

/-- A press and a release in `asym_eager_defer_pk.c` -/
theorem debounce_converges_asym :
    ((3 :: [8, 13]).foldl (fun x t => x.step ⟨fun _ _ => false, t⟩) ([⟨fun _ _ => true, 1⟩].foldl World.step
      (World.start (Algorithm.asymEagerDeferPk.file 32 0 5 : File 1 1)))).cooked = fun _ _ => false :=
  debounce_converges .asymEagerDeferPk (fun other => absurd other (by decide)) _ _
    ⟨by decide, by change 8 - 3 < 2 ^ 32; decide, by decide, by change 13 - 8 < 2 ^ 32; decide, trivial⟩ (by decide)

/-- A release during the time after a press that the next call, long after, sees: it has to last from that
call on, so twice the time and one call more do not do. -/
theorem release_lasts_from_late_call :
    ¬ ∀ later : List Nat, Advances (fun _ => True) 3 later → (∃ t ∈ later.dropLast, 3 + 2 * 5 ≤ t) →
      ((3 :: later).foldl (fun x t => x.step ⟨fun _ _ => false, t⟩) ([⟨fun _ _ => true, 1⟩].foldl World.step
        (World.start (Algorithm.asymEagerDeferPk.file 32 0 5 : File 1 1)))).cooked = fun _ _ => false := by
  intro h
  have late := h [106, 107] ⟨by decide, trivial, by decide, trivial, trivial⟩ ⟨106, by decide, by decide⟩
  exact absurd late (by decide)

end QmkFirmware.Debounce
