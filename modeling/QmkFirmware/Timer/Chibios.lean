import Mathlib
import QmkFirmware.Lib.Run

/-!
# The timer on ChibiOS

`timer.c` of `platforms/chibios` extends the system time, which may have few bits and ticks
that are no milliseconds, to milliseconds in 32 bits. A counter of its own makes up for
the bits that the system time lacks, and where the ticks wrap around a whole number of
seconds is taken from them and their milliseconds are added to the result. As long as the
time is read often enough, every reading is the time since the timer was cleared.
-/

namespace QmkFirmware.Timer
open Lib

/-- `CH_CFG_ST_RESOLUTION`, `CH_CFG_ST_FREQUENCY`, and the milliseconds of a number of ticks, which `TIME_I2MS` computes of ticks in
32 bits: it rounds, but not the seconds. -/
structure Clock where
  resolution : Nat
  frequency : Nat
  ms : Nat → Nat
  resolution_le : resolution ≤ 32
  frequency_pos : 0 < frequency
  frequency_lt : frequency < 2 ^ 32
  ms_zero : ms 0 = 0
  ms_second : ∀ n, ms (n + frequency) = ms n + 1000

/-- The variables of `timer.c` -/
structure TimerState where
  ticksOffset : BitVec 32
  lastTicks : BitVec 32
  msOffset : BitVec 32
  lastSystime : BitVec 32
  overflow : BitVec 32
  deriving DecidableEq, Repr

section Code

variable (c : Clock) (s : TimerState) (now : Nat)

/-- `chVTGetSystemTimeX`, `now` ticks after the start -/
def chVTGetSystemTimeX : Nat := now % 2 ^ c.resolution

/-- `get_system_time_ticks` -/
def getSystemTimeTicks : TimerState × BitVec 32 :=
  let systime := BitVec.ofNat 32 (chVTGetSystemTimeX c now)
  if c.resolution < 32 then
    let overflow := if systime < s.lastSystime then s.overflow + BitVec.ofNat 32 (2 ^ c.resolution) else s.overflow
    ({ s with lastSystime := systime, overflow := overflow }, systime + overflow)
  else (s, systime)

/-- `OVERFLOW_ADJUST_TICKS` -/
def Clock.overflowAdjustTicks : Nat := (2 ^ 32 - 1) / c.frequency * c.frequency

/-- `TIME_I2MS` -/
def Clock.timeI2ms (ticks : BitVec 32) : BitVec 32 := BitVec.ofNat 32 (c.ms ticks.toNat)

/-- `OVERFLOW_ADJUST_MS` -/
def Clock.overflowAdjustMs : BitVec 32 := c.timeI2ms (BitVec.ofNat 32 c.overflowAdjustTicks)

/-- `timer_clear` -/
def timerClear : TimerState :=
  let ticks := getSystemTimeTicks c s now
  { ticks.1 with ticksOffset := ticks.2, lastTicks := 0, msOffset := 0 }

/-- `timer_read32` -/
def timerRead32 : TimerState × BitVec 32 :=
  let systime := getSystemTimeTicks c s now
  let s := systime.1
  let ticks := systime.2 - s.ticksOffset
  let wrapped := ticks < s.lastTicks
  let ticks := if wrapped then ticks - BitVec.ofNat 32 c.overflowAdjustTicks else ticks
  let s := if wrapped then
      { s with
        ticksOffset := s.ticksOffset + BitVec.ofNat 32 c.overflowAdjustTicks
        msOffset := s.msOffset + c.overflowAdjustMs }
    else s
  ({ s with lastTicks := ticks }, c.timeI2ms ticks + s.msOffset)

end Code

/-! ## The ticks -/

section Ticks

variable {c : Clock} {s : TimerState}

/-- The counter makes up for the bits of the system time at the last call. -/
structure Counted (c : Clock) (s : TimerState) (called : Nat) : Prop where
  systime : c.resolution < 32 → s.lastSystime = BitVec.ofNat 32 (called % 2 ^ c.resolution)
  overflow : c.resolution < 32 → s.overflow = BitVec.ofNat 32 (called / 2 ^ c.resolution * 2 ^ c.resolution)

/-- Less than a range later the quotient is the same, or one more where the remainder is less. -/
theorem div_later {range called now : Nat} (pos : 0 < range) (le : called ≤ now) (gap : now < called + range) :
    now / range = if now % range < called % range then called / range + 1 else called / range := by
  have split := Nat.div_add_mod now range
  have split' := Nat.div_add_mod called range
  have lt := Nat.mod_lt now pos
  have lt' := Nat.mod_lt called pos
  have lower : called / range ≤ now / range := Nat.div_le_div_right le
  have upper : now / range ≤ called / range + 1 := by
    rw [← Nat.add_div_right _ pos]
    exact Nat.div_le_div_right gap.le
  rcases Nat.lt_or_ge (called / range) (now / range) with more | same
  · have next : now / range = called / range + 1 := by omega
    rw [next, Nat.mul_add, Nat.mul_one] at split
    rw [if_pos (by omega), next]
  · have stays : now / range = called / range := by omega
    rw [stays] at split
    rw [if_neg (by omega), stays]

/-- **The ticks in 32 bits**: as long as the calls are less than a range of the system time apart, the ticks since the start -/
theorem getSystemTimeTicks_eq {called now : Nat} (h : Counted c s called) (le : called ≤ now)
    (gap : c.resolution < 32 → now < called + 2 ^ c.resolution) :
    (getSystemTimeTicks c s now).2 = BitVec.ofNat 32 now ∧ Counted c (getSystemTimeTicks c s now).1 now := by
  by_cases narrow : c.resolution < 32
  · have pos : 0 < 2 ^ c.resolution := Nat.two_pow_pos _
    have range : 2 ^ c.resolution < 2 ^ 32 := Nat.pow_lt_pow_right (by decide) narrow
    have small : ∀ n, (BitVec.ofNat 32 (n % 2 ^ c.resolution)).toNat = n % 2 ^ c.resolution := by
      intro n
      rw [BitVec.toNat_ofNat, Nat.mod_eq_of_lt ((Nat.mod_lt n pos).trans range)]
    have later := div_later pos le (gap narrow)
    have overflow : (if BitVec.ofNat 32 (now % 2 ^ c.resolution) < s.lastSystime then s.overflow + BitVec.ofNat 32 (2 ^ c.resolution)
        else s.overflow) = BitVec.ofNat 32 (now / 2 ^ c.resolution * 2 ^ c.resolution) := by
      have same : BitVec.ofNat 32 (now % 2 ^ c.resolution) < BitVec.ofNat 32 (called % 2 ^ c.resolution) ↔
          now % 2 ^ c.resolution < called % 2 ^ c.resolution := by
        rw [BitVec.lt_def, small, small]
      rw [h.systime narrow, h.overflow narrow]
      by_cases wrapped : now % 2 ^ c.resolution < called % 2 ^ c.resolution
      · rw [if_pos wrapped] at later
        rw [if_pos (same.2 wrapped), later, Nat.add_mul, Nat.one_mul, BitVec.ofNat_add]
      · rw [if_neg wrapped] at later
        rw [if_neg fun h => wrapped (same.1 h), later]
    unfold getSystemTimeTicks chVTGetSystemTimeX
    dsimp only
    rw [if_pos narrow, overflow]
    refine ⟨?_, fun _ => rfl, fun _ => rfl⟩
    dsimp only
    rw [← BitVec.ofNat_add, Nat.mul_comm, Nat.mod_add_div]
  · have wide : c.resolution = 32 := Nat.le_antisymm c.resolution_le (Nat.le_of_not_lt narrow)
    unfold getSystemTimeTicks chVTGetSystemTimeX
    dsimp only
    rw [if_neg narrow, wide]
    refine ⟨?_, fun lt => absurd lt narrow, fun lt => absurd lt narrow⟩
    apply BitVec.eq_of_toNat_eq
    rw [BitVec.toNat_ofNat, BitVec.toNat_ofNat, Nat.mod_mod]

end Ticks

/-! ## The milliseconds -/

section Milliseconds

variable (c : Clock)

theorem ms_seconds (n j : Nat) : c.ms (n + j * c.frequency) = c.ms n + 1000 * j := by
  induction j with
  | zero => rw [Nat.zero_mul, Nat.add_zero, Nat.mul_zero, Nat.add_zero]
  | succ j ih => rw [Nat.succ_mul, ← Nat.add_assoc, c.ms_second, ih, Nat.mul_succ, Nat.add_assoc]

/-- The adjustment is a whole number of seconds. -/
theorem ms_adjust (n j : Nat) : c.ms (n + j * c.overflowAdjustTicks) = c.ms n + j * c.ms c.overflowAdjustTicks := by
  have seconds := ms_seconds c 0 ((2 ^ 32 - 1) / c.frequency)
  rw [Nat.zero_add, c.ms_zero, Nat.zero_add] at seconds
  unfold Clock.overflowAdjustTicks
  rw [seconds, ← Nat.mul_assoc, ms_seconds, Nat.mul_left_comm]

theorem overflowAdjustTicks_lt : c.overflowAdjustTicks < 2 ^ 32 := by
  have := Nat.div_mul_le_self (2 ^ 32 - 1) c.frequency
  unfold Clock.overflowAdjustTicks
  omega

theorem overflowAdjustMs_eq : c.overflowAdjustMs = BitVec.ofNat 32 (c.ms c.overflowAdjustTicks) := by
  unfold Clock.overflowAdjustMs Clock.timeI2ms
  rw [BitVec.toNat_ofNat, Nat.mod_eq_of_lt (overflowAdjustTicks_lt c)]

end Milliseconds

/-- The timer after a reading or the clearing, `ticks` ticks after the clearing: it has been adjusted some number of times, and the
ticks that are left fit. -/
structure Adjusted (c : Clock) (s : TimerState) (since ticks : Nat) : Prop where
  times : ∃ k, k * c.overflowAdjustTicks ≤ ticks ∧ ticks < k * c.overflowAdjustTicks + 2 ^ 32 ∧
    s.ticksOffset = BitVec.ofNat 32 (since + k * c.overflowAdjustTicks) ∧
    s.lastTicks = BitVec.ofNat 32 (ticks - k * c.overflowAdjustTicks) ∧
    s.msOffset = BitVec.ofNat 32 (k * c.ms c.overflowAdjustTicks)

section Reading

variable {c : Clock} {s : TimerState} {since read called now : Nat}

theorem getSystemTimeTicks_frame (c : Clock) (s : TimerState) (now : Nat) :
    (getSystemTimeTicks c s now).1.ticksOffset = s.ticksOffset ∧
    (getSystemTimeTicks c s now).1.lastTicks = s.lastTicks ∧ (getSystemTimeTicks c s now).1.msOffset = s.msOffset := by
  unfold getSystemTimeTicks
  dsimp only
  split <;> exact ⟨rfl, rfl, rfl⟩

theorem timerClear_adjusted (ticks : (getSystemTimeTicks c s now).2 = BitVec.ofNat 32 now) : Adjusted c (timerClear c s now) now 0 := by
  refine ⟨0, by omega, by omega, ?_, ?_, ?_⟩
  · unfold timerClear
    dsimp only
    rw [ticks, Nat.zero_mul, Nat.add_zero]
  · rw [Nat.zero_mul]
    rfl
  · rw [Nat.zero_mul]
    rfl

/-- The difference of two times is the time between them. -/
theorem ofNat_sub_ofNat {a m n : Nat} (le : m ≤ n) : BitVec.ofNat 32 (a + n) - BitVec.ofNat 32 (a + m) = BitVec.ofNat 32 (n - m) := by
  obtain ⟨d, rfl⟩ := Nat.exists_eq_add_of_le le
  rw [Nat.add_sub_cancel_left, ← Nat.add_assoc, BitVec.ofNat_add (a + m) d, BitVec.add_comm, BitVec.add_sub_cancel]

/-- **A reading**: the milliseconds of the ticks since the clearing, if it comes soon enough after the last one. -/
theorem timerRead32_eq (h : Adjusted c s since read) (le : read ≤ now) (soon : now ≤ read + c.overflowAdjustTicks)
    (ticks : (getSystemTimeTicks c s (since + now)).2 = BitVec.ofNat 32 (since + now)) :
    (timerRead32 c s (since + now)).2 = BitVec.ofNat 32 (c.ms now) ∧ Adjusted c (timerRead32 c s (since + now)).1 since now := by
  obtain ⟨k, lower, upper, offset, last, ms⟩ := h.times
  obtain ⟨frameOffset, frameLast, frameMs⟩ := getSystemTimeTicks_frame c s (since + now)
  have small := overflowAdjustTicks_lt c
  have between : BitVec.ofNat 32 (since + now) - s.ticksOffset = BitVec.ofNat 32 (now - k * c.overflowAdjustTicks) := by
    rw [offset, ofNat_sub_ofNat (lower.trans le)]
  have lastNat : s.lastTicks.toNat = read - k * c.overflowAdjustTicks := by
    rw [last, BitVec.toNat_ofNat, Nat.mod_eq_of_lt (by omega)]
  have milliseconds : ∀ j, j * c.overflowAdjustTicks ≤ now → now < j * c.overflowAdjustTicks + 2 ^ 32 →
      c.timeI2ms (BitVec.ofNat 32 (now - j * c.overflowAdjustTicks)) + BitVec.ofNat 32 (j * c.ms c.overflowAdjustTicks) =
        BitVec.ofNat 32 (c.ms now) := by
    intro j lower upper
    unfold Clock.timeI2ms
    rw [BitVec.toNat_ofNat, Nat.mod_eq_of_lt (by omega), ← BitVec.ofNat_add, ← ms_adjust, Nat.sub_add_cancel lower]
  unfold timerRead32
  dsimp only
  rw [ticks, frameOffset, frameLast, frameMs, between]
  by_cases fits : now < k * c.overflowAdjustTicks + 2 ^ 32
  · have whole : (BitVec.ofNat 32 (now - k * c.overflowAdjustTicks)).toNat = now - k * c.overflowAdjustTicks := by
      rw [BitVec.toNat_ofNat, Nat.mod_eq_of_lt (by omega)]
    have ahead : ¬ BitVec.ofNat 32 (now - k * c.overflowAdjustTicks) < s.lastTicks := by
      rw [BitVec.lt_def, whole, lastNat]
      omega
    simp only [if_neg ahead]
    rw [frameMs, ms]
    exact ⟨milliseconds k (by omega) fits, k, by omega, fits, by rw [frameOffset, offset], rfl, rfl⟩
  · have next : (k + 1) * c.overflowAdjustTicks = k * c.overflowAdjustTicks + c.overflowAdjustTicks := Nat.succ_mul ..
    have whole : (BitVec.ofNat 32 (now - k * c.overflowAdjustTicks)).toNat = now - k * c.overflowAdjustTicks - 2 ^ 32 := by
      rw [BitVec.toNat_ofNat, Nat.mod_eq_sub_mod (by omega), Nat.mod_eq_of_lt (by omega)]
    have behind : BitVec.ofNat 32 (now - k * c.overflowAdjustTicks) < s.lastTicks := by
      rw [BitVec.lt_def, whole, lastNat]
      omega
    have rest : BitVec.ofNat 32 (now - k * c.overflowAdjustTicks) - BitVec.ofNat 32 c.overflowAdjustTicks =
        BitVec.ofNat 32 (now - (k + 1) * c.overflowAdjustTicks) := by
      have := ofNat_sub_ofNat (a := 0) (m := c.overflowAdjustTicks) (n := now - k * c.overflowAdjustTicks) (by omega)
      rw [Nat.zero_add, Nat.zero_add, Nat.sub_sub, ← next] at this
      exact this
    have more : s.msOffset + c.overflowAdjustMs = BitVec.ofNat 32 ((k + 1) * c.ms c.overflowAdjustTicks) := by
      rw [ms, overflowAdjustMs_eq, ← BitVec.ofNat_add, Nat.succ_mul]
    simp only [if_pos behind]
    rw [rest, more]
    refine ⟨milliseconds (k + 1) (by omega) (by omega), k + 1, by omega, by omega, ?_, rfl, rfl⟩
    rw [offset, ← BitVec.ofNat_add, next, Nat.add_assoc]

/-- A reading calls `get_system_time_ticks`. -/
theorem timerRead32_counted (h : Counted c (getSystemTimeTicks c s now).1 called) : Counted c (timerRead32 c s now).1 called := by
  unfold timerRead32
  dsimp only
  split <;> exact ⟨h.systime, h.overflow⟩

theorem timerClear_counted (h : Counted c (getSystemTimeTicks c s now).1 called) : Counted c (timerClear c s now) called :=
  ⟨h.systime, h.overflow⟩

/-- A call in between leaves the timer as it was adjusted. -/
theorem Adjusted.update (h : Adjusted c s since read) : Adjusted c (getSystemTimeTicks c s now).1 since read := by
  obtain ⟨offset, last, ms⟩ := getSystemTimeTicks_frame c s now
  obtain ⟨k, bounds⟩ := h.times
  exact ⟨k, by rwa [offset, last, ms]⟩

end Reading

/-! ## Runs -/

/-- A call: of the callback that keeps the counter updated, of `timer_read32`, or of `timer_clear` -/
inductive Use where
  | update
  | read
  | clear
  deriving DecidableEq, Repr

/-- The variables, when `get_system_time_ticks` was called last, when the timer was cleared, and how long after that it was read -/
structure Timing where
  state : TimerState
  called : Nat
  since : Nat
  read : Nat
  deriving DecidableEq, Repr

namespace Timing

variable (c : Clock)

/-- At the start all is zero. -/
def start : Timing := ⟨⟨0, 0, 0, 0, 0⟩, 0, 0, 0⟩

/-- A call so many ticks after the start -/
def step (w : Timing) (call : Nat × Use) : Timing :=
  match call.2 with
  | .update => { w with state := (getSystemTimeTicks c w.state call.1).1, called := call.1 }
  | .read => { w with state := (timerRead32 c w.state call.1).1, called := call.1, read := call.1 - w.since }
  | .clear => ⟨timerClear c w.state call.1, call.1, call.1, 0⟩

/-- The call comes before the system time has gone around once, and a reading before the adjustment has passed since the last. -/
def Timely (w : Timing) (call : Nat × Use) : Prop :=
  w.called ≤ call.1 ∧ (c.resolution < 32 → call.1 < w.called + 2 ^ c.resolution) ∧
    (call.2 = .read → call.1 ≤ w.since + w.read + c.overflowAdjustTicks)

structure Inv (w : Timing) : Prop where
  counted : Counted c w.state w.called
  adjusted : Adjusted c w.state w.since w.read
  order : w.since + w.read ≤ w.called

variable {c} {w : Timing} {call : Nat × Use}

theorem inv_start : Inv c start := by
  refine ⟨⟨fun _ => ?_, fun _ => ?_⟩, ⟨0, by simp, by simp [start], ?_, ?_, ?_⟩, le_rfl⟩
  · simp [start]
  · simp [start]
  · simp [start]
  · simp [start]
  · simp [start]

/-- What a reading gives -/
theorem Inv.reading (h : Inv c w) (timely : Timely c w call) (read : call.2 = .read) :
    (timerRead32 c w.state call.1).2 = BitVec.ofNat 32 (c.ms (call.1 - w.since)) ∧ Inv c (w.step c call) := by
  obtain ⟨now, use⟩ := call
  obtain ⟨later, gap, soon⟩ := timely
  dsimp only at later gap soon read ⊢
  subst read
  obtain ⟨ticks, counted⟩ := getSystemTimeTicks_eq h.counted later gap
  have split : w.since + (now - w.since) = now := by
    have := h.order
    omega
  rw [← split] at ticks
  have reading := timerRead32_eq h.adjusted (show w.read ≤ now - w.since by have := h.order; omega)
    (show now - w.since ≤ w.read + c.overflowAdjustTicks by have := soon rfl; omega) ticks
  rw [split] at reading
  exact ⟨reading.1, timerRead32_counted counted, reading.2, split.le⟩

theorem Inv.step (h : Inv c w) (timely : Timely c w call) : Inv c (w.step c call) := by
  obtain ⟨now, use⟩ := call
  cases use with
  | read => exact (h.reading timely rfl).2
  | update =>
    obtain ⟨later, gap, -⟩ := timely
    obtain ⟨-, counted⟩ := getSystemTimeTicks_eq h.counted later gap
    exact ⟨counted, h.adjusted.update, h.order.trans later⟩
  | clear =>
    obtain ⟨later, gap, -⟩ := timely
    obtain ⟨ticks, counted⟩ := getSystemTimeTicks_eq h.counted later gap
    exact ⟨timerClear_counted counted, timerClear_adjusted ticks, le_rfl⟩

/-- **Every reading is the time**: after any calls that come soon enough one after the other, `timer_read32` gives the milliseconds
since the timer was cleared, modulo the range of the result, however often the system time and the ticks wrapped around. -/
theorem reads_elapsed (c : Clock) {calls : List (Nat × Use)} (timely : Along (step c) (Timely c) start calls) {now : Nat}
    (soon : Timely c (calls.foldl (step c) start) (now, .read)) :
    (timerRead32 c (calls.foldl (step c) start).state now).2 =
      BitVec.ofNat 32 (c.ms (now - (calls.foldl (step c) start).since)) :=
  ((Along.invariant (Inv c) (fun _ _ h timely => h.step timely) inv_start timely).reading soon rfl).1

/-- A system time of 16 bits at 1000 ticks a second, as an example -/
def sixteenBits : Clock where
  resolution := 16
  frequency := 1000
  ms := id
  resolution_le := by omega
  frequency_pos := by omega
  frequency_lt := by omega
  ms_zero := rfl
  ms_second _ := rfl

theorem reads_elapsed_sixteenBits :
    (timerRead32 sixteenBits ([(3, Use.clear), (40000, .update), (70000, .update)].foldl (step sixteenBits) start).state 70003).2 =
      BitVec.ofNat 32 70000 := by
  have timely : Along (step sixteenBits) (Timely sixteenBits) start [(3, .clear), (40000, .update), (70000, .update)] := by
    simp only [Along, Timely]
    decide
  apply reads_elapsed sixteenBits timely
  unfold Timely
  decide

end Timing

end QmkFirmware.Timer
