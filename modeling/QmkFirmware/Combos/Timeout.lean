import QmkFirmware.Lib.Timer
import QmkFirmware.Combos.Presses

/-!
# The end of the combo term

`timer` is the time of the last key that was gathered, or of the first one with
`COMBO_STRICT_TIMER`, and 0 when none is: `combo_task` does not see a key that is pressed
when the timer reads 0.
-/

namespace QmkFirmware.Combos
open Lib

variable {n w : Nat}

/-! ## What does not touch the time -/

/-- The start time stays, and the longest term does or is cleared. -/
structure Untimed (s s' : State n w) : Prop where
  timer : s'.timer = s.timer
  enabled : s'.enabled = s.enabled
  longestTerm : s'.longestTerm = s.longestTerm ∨ s'.longestTerm = 0

variable {cfg : Config n} {e : Event} {s s' s'' : State n w} {c : Fin n}

theorem Untimed.refl (s : State n w) : Untimed s s := ⟨rfl, rfl, Or.inl rfl⟩

theorem Untimed.trans (h : Untimed s s') (h' : Untimed s' s'') : Untimed s s'' := by
  refine ⟨h'.timer.trans h.timer, h'.enabled.trans h.enabled, ?_⟩
  rcases h'.longestTerm with same | zero
  · rw [same]
    exact h.longestTerm
  · exact Or.inr zero

theorem untimed_drop : Untimed s (dropComboFromBuffer c s) := by
  unfold dropComboFromBuffer
  dsimp only
  split
  · split <;> exact ⟨rfl, rfl, Or.inl rfl⟩
  · exact .refl s

theorem untimed_clearCombos : Untimed s (clearCombos s) := ⟨rfl, rfl, Or.inr rfl⟩

theorem untimed_dumpKeyBuffer : Untimed s (cfg.dumpKeyBuffer s) := by
  unfold Config.dumpKeyBuffer
  split <;> exact ⟨rfl, rfl, Or.inl rfl⟩

theorem untimed_applyCombo : Untimed s (cfg.applyCombo c s) := by
  unfold Config.applyCombo
  split
  · exact .refl s
  · dsimp only
    refine Untimed.trans ?_ untimed_drop
    split <;> exact ⟨rfl, rfl, Or.inl rfl⟩

theorem untimed_applyQueued : Untimed s (cfg.applyQueued s c) := by
  unfold Config.applyQueued
  split
  · exact untimed_drop
  · exact untimed_applyCombo

theorem untimed_foldl (queue : List (Fin n)) : Untimed s (queue.foldl cfg.applyQueued s) := by
  induction queue generalizing s with
  | nil => exact .refl s
  | cons c queue ih => exact untimed_applyQueued.trans ih

theorem untimed_applyCombos : Untimed s (cfg.applyCombos s) :=
  ((untimed_foldl s.comboBuffer).trans untimed_dumpKeyBuffer).trans untimed_clearCombos

theorem untimed_releaseCombo : Untimed s (cfg.releaseCombo c s) := ⟨rfl, rfl, Or.inl rfl⟩

theorem untimed_releaseKey {index : Nat} {part : Bool} : Untimed s (cfg.releaseKey c index e part s).2 := by
  have up {t : State n w} (h : Untimed s t) : Untimed s (t.keyUp c index) := ⟨h.timer, h.enabled, h.longestTerm⟩
  unfold Config.releaseKey
  dsimp only
  split
  · split
    · exact up untimed_drop
    · split
      · split
        · exact up ((untimed_applyCombo.trans untimed_applyCombos).trans untimed_releaseCombo)
        · exact up (untimed_applyCombo.trans untimed_applyCombos)
      · exact up (.refl s)
  · split
    · split
      · exact up untimed_releaseCombo
      · exact up (.refl s)
    · exact up (.refl s)

/-! ## The longest term -/

namespace Config

variable (cfg)

/-- How long a combo may keep a key waiting -/
def term (c : Fin n) : Nat := max (cfg.comboTerm c).toNat (if cfg.mustHold c || cfg.mustTap c then cfg.holdTerm.toNat else 0)

/-- The longest term of the combos that one of the keys belongs to -/
def longest (lookups : List Nat) : Nat :=
  (Finset.univ.filter fun c => ∃ k ∈ lookups, cfg.keyIndex c k ≠ none).sup cfg.term

end Config

theorem term_le_longest {lookups : List Nat} {k : Nat} (mem : k ∈ lookups) (key : cfg.keyIndex c k ≠ none) :
    cfg.term c ≤ cfg.longest lookups :=
  Finset.le_sup (f := cfg.term) (Finset.mem_filter.2 ⟨Finset.mem_univ c, k, mem, key⟩)

theorem longest_mono {lookups more : List Nat} (sub : ∀ k ∈ lookups, k ∈ more) : cfg.longest lookups ≤ cfg.longest more := by
  refine Finset.sup_mono fun c mem => ?_
  obtain ⟨-, k, mem, key⟩ := Finset.mem_filter.1 mem
  exact Finset.mem_filter.2 ⟨Finset.mem_univ c, k, sub k mem, key⟩

/-- The start time stays, and the longest term is at most the bound. -/
structure Bounded (bound : Nat) (s s' : State n w) : Prop where
  timer : s'.timer = s.timer
  enabled : s'.enabled = s.enabled
  le : s'.longestTerm.toNat ≤ bound

theorem Untimed.bounded {bound : Nat} (h : Untimed s s') (le : s.longestTerm.toNat ≤ bound) : Bounded bound s s' := by
  refine ⟨h.timer, h.enabled, ?_⟩
  rcases h.longestTerm with same | zero
  · rwa [same]
  · rw [zero]
    exact Nat.zero_le bound

theorem Bounded.trans {bound : Nat} (h : Bounded bound s s') (h' : Bounded bound s' s'') : Bounded bound s s'' :=
  ⟨h'.timer.trans h.timer, h'.enabled.trans h.enabled, h'.le⟩

theorem bounded_queueCombo {bound : Nat} (le : s.longestTerm.toNat ≤ bound) (term : cfg.term c ≤ bound) :
    Bounded bound s (cfg.queueCombo c s) := by
  obtain ⟨t, left, keep, eq, -, dropped⟩ := @dropOverlapping_spec n w cfg c s.comboBuffer s []
  have longest : t.longestTerm = s.longestTerm := by rw [dropped.same]
  have wait : (cfg.waitTime t c).toNat ≤ bound := by
    unfold Config.waitTime
    split
    case isTrue waits =>
      rw [Bool.and_eq_true] at waits
      refine Nat.le_trans ?_ term
      unfold Config.term
      rw [if_pos waits.1]
      exact Nat.le_max_right _ _
    case isFalse => rwa [longest]
  unfold Config.queueCombo
  rw [eq, dropped.same]
  cases keep with
  | true => exact ⟨rfl, rfl, by rw [dropped.same] at wait; exact wait⟩
  | false => exact ⟨rfl, rfl, le⟩

theorem bounded_pressCombo {bound index : Nat} {now : BitVec 16} (le : s.longestTerm.toNat ≤ bound)
    (term : cfg.term c ≤ bound) : Bounded bound s (cfg.pressCombo c index now s) := by
  have own : (cfg.comboTerm c).toNat ≤ bound := Nat.le_trans (Nat.le_max_left _ _) term
  obtain ⟨t, same, ht⟩ : ∃ t, Bounded bound s t ∧ t = (if (s.flags c).active then s else
      { s.keyDown c index with
        longestTerm := if s.longestTerm < cfg.comboTerm c then cfg.comboTerm c else s.longestTerm }) := by
    refine ⟨_, ?_, rfl⟩
    split
    · exact ⟨rfl, rfl, le⟩
    · refine ⟨rfl, rfl, ?_⟩
      dsimp only
      split
      · exact own
      · exact le
  unfold Config.pressCombo
  rw [← ht]
  dsimp only
  split
  · split
    · exact ⟨same.timer, same.enabled, same.le⟩
    · exact same.trans (bounded_queueCombo same.le term)
  · exact same

theorem bounded_processSingleCombo {bound : Nat} (le : s.longestTerm.toNat ≤ bound)
    (term : cfg.keyIndex c e.lookup ≠ none → cfg.term c ≤ bound) : Bounded bound s (cfg.processSingleCombo c e s).2 := by
  unfold Config.processSingleCombo
  split
  case h_1 => exact (Untimed.refl s).bounded le
  case h_2 index key =>
    dsimp only
    split
    · exact bounded_pressCombo le (term (by simp [key]))
    · exact untimed_releaseKey.bounded le

/-- The loop of `process_combo` -/
theorem bounded_processCombos {bound : Nat} (le : s.longestTerm.toNat ≤ bound)
    (term : ∀ c, cfg.keyIndex c e.lookup ≠ none → cfg.term c ≤ bound) : Bounded bound s (cfg.processCombos e s).2 := by
  have turns (rest : List (Fin n)) : ∀ (r : Bool × State n w), r.2.longestTerm.toNat ≤ bound →
      Bounded bound r.2 (rest.foldl (turn cfg e) r).2 := by
    induction rest with
    | nil => exact fun r le => (Untimed.refl r.2).bounded le
    | cons c rest ih =>
      intro r le
      have one := bounded_processSingleCombo le (term c)
      exact one.trans (ih (turn cfg e r c) one.le)
  rw [processCombos_eq]
  exact turns (List.finRange n) (false, s) le

/-! ## A key that waits -/

/-- The longest term is that of a key that waits. -/
def InTerm (cfg : Config n) (s : State n w) : Prop := s.longestTerm.toNat ≤ cfg.longest s.lookups

theorem longestTerm_endGathering : (cfg.endGathering s).longestTerm = 0 := by
  unfold Config.endGathering
  split <;> rfl

/-- The time from which the term of a press is counted -/
def startTime (cfg : Config n) (s : State n w) (e : Event) : BitVec 16 :=
  if cfg.strictTimer && s.timer != 0 then s.timer else e.time

theorem bufferPress_timer (timed : cfg.noTimer = false) : (cfg.bufferPress e s).timer = startTime cfg s e := by
  unfold Config.bufferPress startTime
  rw [timed, Bool.false_or]
  dsimp only
  split
  case isTrue => split <;> rfl
  case isFalse => split <;> rfl

theorem bufferPress_longestTerm : (cfg.bufferPress e s).longestTerm = s.longestTerm := by
  unfold Config.bufferPress
  dsimp only
  split
  case isTrue => split <;> rfl
  case isFalse => split <;> rfl

theorem longestTerm_comboDisable : (cfg.comboDisable s).longestTerm = 0 := by
  rcases (@untimed_dumpKeyBuffer n w cfg _).longestTerm with same | zero
  · exact same
  · exact zero

/-- A press that waits starts the term. -/
structure Gathered (cfg : Config n) (e : Event) (s s' : State n w) : Prop where
  keyBuffer : s'.keyBuffer = s.keyBuffer ++ [⟨e, true, none⟩]
  timer : s'.timer = startTime cfg s e
  enabled : s'.enabled = s.enabled
  inTerm : InTerm cfg s'

theorem InTerm.gathered (h : Inv cfg [] s) (ok : EventOk cfg s e) (timed : cfg.noTimer = false) (inTerm : InTerm cfg s)
    (down : e.pressed = true) (counts : (cfg.processCombos e s).1 = true) :
    Gathered cfg e s (cfg.bufferPress e (cfg.processCombos e s).2) := by
  obtain ⟨-, -, same, -⟩ := processCombos_spec (fun _ _ => True) h ok (fun _ _ _ _ _ _ _ _ _ _ => trivial) trivial
  have room : (cfg.processCombos e s).2.keyBuffer.length < cfg.keyBufferLength := by
    rw [same down]
    refine (ok.room down).resolve_right fun none => ?_
    rw [processCombos_eq, turns_none none] at counts
    cases counts
  have keyBuffer : (cfg.bufferPress e (cfg.processCombos e s).2).keyBuffer = s.keyBuffer ++ [⟨e, true, none⟩] := by
    rw [bufferPress_keyBuffer room, same down]
  have lookups : (cfg.bufferPress e (cfg.processCombos e s).2).lookups = s.lookups ++ [e.lookup] := by
    unfold State.lookups
    rw [keyBuffer, List.map_append]
    rfl
  have bounded : Bounded (cfg.longest (s.lookups ++ [e.lookup])) s (cfg.processCombos e s).2 := by
    refine bounded_processCombos (Nat.le_trans inTerm (longest_mono fun k mem => List.mem_append_left _ mem)) fun c key => ?_
    exact term_le_longest (List.mem_append_right _ (List.mem_singleton_self _)) key
  refine ⟨keyBuffer, ?_, ?_, ?_⟩
  · rw [bufferPress_timer timed, startTime, bounded.timer, startTime]
  · obtain ⟨-, -, -, enabled⟩ := @bufferPress_flags n w cfg e (cfg.processCombos e s).2
    rw [enabled, bounded.enabled]
  · unfold InTerm
    rw [lookups]
    rw [bufferPress_longestTerm]
    exact bounded.le

/-- No key waits longer than the longest term of its combos. -/
theorem InTerm.step (h : Inv cfg [] s) {input : Input} (ok : InputOk cfg s input) (timed : cfg.noTimer = false)
    (inTerm : InTerm cfg s) : InTerm cfg (cfg.step s input) := by
  have cleared {t : State n w} (zero : t.longestTerm = 0) : InTerm cfg t := by
    unfold InTerm
    rw [zero]
    exact Nat.zero_le _
  cases input with
  | event e =>
    have later : InTerm cfg (cfg.processCombo e s).2 := by
      unfold Config.processCombo
      split
      · exact inTerm
      · split
        · exact cleared longestTerm_comboDisable
        · split
          · unfold Config.comboToggle
            split
            · exact cleared longestTerm_comboDisable
            · exact inTerm
          · dsimp only
            split
            case isTrue press =>
              rw [Bool.and_eq_true] at press
              exact (InTerm.gathered h ok timed inTerm press.1 press.2).inTerm
            case isFalse => exact cleared longestTerm_endGathering
    rw [step_event]
    split <;> exact later
  | task now =>
    change InTerm cfg (cfg.comboTask now s)
    unfold Config.comboTask
    split
    · exact inTerm
    · split
      · split
        · exact cleared rfl
        · exact cleared rfl
      · exact inTerm

/-! ## Ticks -/

/-- `combo_task` finds that the term is over. -/
def Over (s : State n w) (now : BitVec 16) : Prop :=
  s.enabled = true ∧ s.timer ≠ 0 ∧ s.longestTerm < now - s.timer

theorem comboTask_of_not_over (timed : cfg.noTimer = false) {now : BitVec 16} (running : ¬ Over s now) :
    cfg.comboTask now s = s := by
  unfold Config.comboTask
  split
  case isTrue => rfl
  case isFalse on =>
    refine if_neg fun late => running ?_
    simp only [timed, Bool.not_false, Bool.true_and, Bool.and_eq_true, bne_iff_ne, decide_eq_true_eq] at late
    exact ⟨by simpa using on, late⟩

/-- Where the term is over, the keys are settled, and no start time is left. -/
theorem comboTask_of_over (h : Inv cfg [] s) (clean : Clean cfg s) (timed : cfg.noTimer = false) {now : BitVec 16}
    (late : Over s now) : (cfg.comboTask now s).timer = 0 ∧ ∃ fired, Flushed cfg s (cfg.comboTask now s) fired := by
  obtain ⟨on, started, late⟩ := late
  have taken : (!cfg.noTimer && s.timer != 0 && decide (s.longestTerm < now - s.timer)) = true := by
    rw [timed, decide_eq_true late, bne_iff_ne.2 started]
    rfl
  unfold Config.comboTask
  rw [on, if_neg (by decide), if_pos taken]
  split
  case isTrue =>
    obtain ⟨fired, a, b, c, d, e, f, g, i⟩ := h.applyCombos clean
    exact ⟨rfl, fired, a, b, c, d, e, f, g, i⟩
  case isFalse none =>
    obtain ⟨a, b, c, d, e, f, g, i⟩ := h.dump (not_not.mp none)
    exact ⟨rfl, [], a, b, c, d, e, f, g, i⟩

/-- Runs of `combo_task` settle the keys if the term is over for one of them, and change nothing otherwise. -/
theorem tasks_spec (timed : cfg.noTimer = false) (times : List (BitVec 16)) : ∀ {s : State n w}, Inv cfg [] s →
    Along cfg.step (PressOk cfg) s (times.map .task) →
    ((∃ now ∈ times, Over s now) →
      ((times.map Input.task).foldl cfg.step s).keyBuffer = [] ∧ ((times.map Input.task).foldl cfg.step s).comboBuffer = []) ∧
    ((¬ ∃ now ∈ times, Over s now) → (times.map Input.task).foldl cfg.step s = s) := by
  induction times with
  | nil =>
    intro s _ _
    exact ⟨fun ⟨_, mem, _⟩ => absurd mem List.not_mem_nil, fun _ => rfl⟩
  | cons now times ih =>
    intro s h ok
    obtain ⟨inv, keep⟩ : Inv cfg [] (cfg.step s (.task now)) ∧ Clean cfg s := ⟨h.step ok.1.1, ok.1.1⟩
    obtain ⟨later, never⟩ := ih inv ok.2
    rw [List.map_cons, List.foldl_cons]
    by_cases late : Over s now
    · obtain ⟨timer, fired, flushed⟩ := comboTask_of_over h keep timed late
      have stays := never fun ⟨_, _, again⟩ => again.2.1 timer
      refine ⟨fun _ => ?_, fun none => absurd ⟨now, List.mem_cons_self, late⟩ none⟩
      rw [stays]
      exact ⟨flushed.keyBuffer, flushed.comboBuffer⟩
    · have same : cfg.step s (.task now) = s := comboTask_of_not_over timed late
      rw [same] at later never ⊢
      refine ⟨fun ⟨t, mem, lateT⟩ => later ⟨t, ?_, lateT⟩, fun none => never fun ⟨t, mem, lateT⟩ => none ⟨t, List.mem_cons_of_mem _ mem, lateT⟩⟩
      refine (List.mem_cons.1 mem).resolve_left ?_
      rintro rfl
      exact late lateT

/-- The times of `combo_task`, some milliseconds after a press -/
def ticks (e : Event) (elapsed : List Nat) : List Input := (elapsed.map fun ms => e.time + BitVec.ofNat 16 ms).map .task

/-- A press that waits is one that `process_combo` keeps to itself. -/
theorem InTerm.waits (h : Inv cfg [] s) (ok : EventOk cfg s e) (timed : cfg.noTimer = false) (inTerm : InTerm cfg s)
    (down : e.pressed = true) (waits : (cfg.processCombo e s).1 = false) : Gathered cfg e s (cfg.step s (.event e)) := by
  have same : cfg.step s (.event e) = (cfg.processCombo e s).2 := by
    rw [step_event, waits]
    rfl
  rw [same]
  unfold Config.processCombo at waits ⊢
  split_ifs at waits ⊢
  dsimp only at waits ⊢
  have counts : (cfg.processCombos e s).1 = true := by simpa using waits
  rw [if_pos (by rw [down, counts]; rfl)]
  exact inTerm.gathered h ok timed down counts

/-- **A key does not wait longer than its combos.** In every run that meets the conditions of `presses_settled`, `combo_task`
settles a press that waits if and only if combos are on, its start time is not 0, and for one of the runs of `combo_task`
the timer is past the longest term. That is the term of a combo of a key that waits, so it is enough that as much time
has passed since the press, and no more than the timer can tell. -/
theorem timeout_settles (timed : cfg.noTimer = false) {inputs : List Input} {e : Event} {elapsed : List Nat}
    (ok : Along cfg.step (PressOk cfg) (initial : State n w) (inputs ++ Input.event e :: ticks e elapsed))
    (down : e.pressed = true) (waits : (cfg.processCombo e (inputs.foldl cfg.step (initial : State n w))).1 = false) :
    let s := inputs.foldl cfg.step (initial : State n w)
    let waiting := cfg.step s (.event e)
    let after := (ticks e elapsed).foldl cfg.step waiting
    let start := startTime cfg s e
    (after.keyBuffer = [] ∧ after.comboBuffer = [] ∧
        after.log.flatMap Entry.presses = (inputs ++ [Input.event e]).flatMap Input.presses ∧
        (∀ entry ∈ after.log, entry.Settles cfg) ↔
      s.enabled = true ∧ start ≠ 0 ∧ ∃ ms ∈ elapsed, waiting.longestTerm < e.time + BitVec.ofNat 16 ms - start) ∧
    ∀ ms, start = e.time → cfg.longest waiting.lookups < ms → ms < 2 ^ 16 →
      waiting.longestTerm < e.time + BitVec.ofNat 16 ms - start := by
  intro s waiting after start
  obtain ⟨before, now, later⟩ := Along.append.1 ok
  have run : Inv cfg [] s ∧ InTerm cfg s :=
    before.invariant (fun s => Inv cfg [] s ∧ InTerm cfg s) (fun s input h ok => ⟨h.1.step ok.1, h.2.step h.1 ok.1 timed⟩)
      ⟨inv_initial, Nat.zero_le _⟩
  have gathered : Gathered cfg e s waiting := run.2.waits run.1 now.1 timed down waits
  obtain ⟨settled, never⟩ := tasks_spec timed _ (run.1.step now.1) later
  have late : (∃ now ∈ elapsed.map fun ms => e.time + BitVec.ofNat 16 ms, Over waiting now) ↔
      s.enabled = true ∧ start ≠ 0 ∧ ∃ ms ∈ elapsed, waiting.longestTerm < e.time + BitVec.ofNat 16 ms - start := by
    unfold Over
    rw [gathered.enabled, gathered.timer]
    simp only [List.mem_map, exists_exists_and_eq_and]
    exact ⟨fun ⟨ms, mem, on, started, late⟩ => ⟨on, started, ms, mem, late⟩,
      fun ⟨on, started, ms, mem, late⟩ => ⟨ms, mem, on, started, late⟩⟩
  refine ⟨⟨fun empty => ?_, fun condition => ?_⟩, fun ms same past small => ?_⟩
  · rw [← late]
    by_contra none
    have still : after = waiting := never none
    have buffer := empty.1
    rw [still, gathered.keyBuffer] at buffer
    exact absurd buffer (by simp)
  · obtain ⟨keys, combos⟩ := settled (late.2 condition)
    have logged := presses_settled ok
    rw [List.foldl_append, List.foldl_cons] at logged
    have presses := logged.presses
    rw [show ((ticks e elapsed).foldl cfg.step (cfg.step s (.event e))).keyBuffer = [] from keys] at presses
    refine ⟨keys, combos, ?_, logged.settles⟩
    have ticking : (ticks e elapsed).flatMap Input.presses = [] := by
      unfold ticks
      simp [Input.presses]
    rw [List.map_nil, List.append_nil] at presses
    rw [presses, List.flatMap_append, List.flatMap_append, List.flatMap_cons, ticking, List.append_nil, List.flatMap_singleton]
  · rw [same, BitVec.lt_def, add_sub_cancel_left, BitVec.toNat_ofNat, Nat.mod_eq_of_lt small]
    exact Nat.lt_of_le_of_lt gathered.inTerm past

section Examples

/-- Two keys that are typed, and one that waits -/
def lone : Event := ⟨(0, 6), true, 6, 6, 65530⟩

theorem timeout_settles_lone :
    let s := chord.foldl (sample nested).step (initial : State 3 8)
    let waiting := (sample nested).step s (.event lone)
    let after := (ticks lone [10, 51, 60]).foldl (sample nested).step waiting
    after.keyBuffer = [] ∧ after.comboBuffer = [] := by
  have settles := @timeout_settles 3 8 (sample nested) rfl chord lone [10, 51, 60]
    (by decide) rfl (by decide)
  have empty := settles.1.2 ⟨by decide, by decide, 51, by decide, by decide⟩
  exact ⟨empty.1, empty.2.1⟩

/-- A key that is pressed when the timer reads 0 waits for the next key, and so does one that is not looked at for as long as
the timer takes to come around. -/
theorem waits_forever :
    ((Input.event ⟨(0, 6), true, 6, 6, 0⟩ :: ticks ⟨(0, 6), true, 6, 6, 0⟩ [51, 1000, 60000]).foldl (sample nested).step
      (initial : State 3 8)).keyBuffer ≠ [] ∧
    ((Input.event lone :: ticks lone [65540]).foldl (sample nested).step (initial : State 3 8)).keyBuffer ≠ [] := by
  decide

end Examples

end QmkFirmware.Combos
