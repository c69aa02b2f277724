import QmkFirmware.Lib.Run
import QmkFirmware.Encoder.Code

/-!
# Steps and clicks

The steps of an encoder are its clicks, each as long as the resolution, and the pulses that
are left. Only a main loop that comes late finds pulses for more than one click, of which it
counts one.
-/

namespace QmkFirmware.Encoder
open Lib

/-! ## One encoder -/

/-- What a click adds to the net number of clicks of an encoder, counter-clockwise clicks being positive -/
def Click.net (cfg : Config) (index : Nat) (c : Click) : Int :=
  if c.index = index then if c.clockwise = cfg.counterClockwise then 1 else -1 else 0

/-- Counter-clockwise clicks minus clockwise clicks -/
def State.net (cfg : Config) (index : Nat) (s : State) : Int := (s.clicks.map (Click.net cfg index)).sum

/-- The part of the state that belongs to an encoder -/
structure Local where
  state : BitVec 8
  pulses : Int
  interrupt : Bool
  net : Int

def State.view (cfg : Config) (s : State) (i : Nat) : Local :=
  ⟨s.encoderState i, (s.encoderPulses i).toInt, s.encoderInterruptUpdate i, s.net cfg (i + cfg.thisHand)⟩

/-- The step that a sample makes -/
def decode (state : BitVec 8) (pads : Pads) : Int := State.lutStep (state <<< 2 ||| pads.status)

/-- One click at most -/
def oneClick (resolution pulses : Int) : Int := (if resolution ≤ pulses then 1 else 0) - (if pulses ≤ -resolution then 1 else 0)

/-- The pulses fit into the counter. -/
def Fits (pulses : Int) : Prop := -128 ≤ pulses ∧ pulses ≤ 127

instance (pulses : Int) : Decidable (Fits pulses) := inferInstanceAs (Decidable (_ ∧ _))

namespace Local

/-- A sample of the main loop -/
def read (resolution : Nat) (pads : Pads) (l : Local) : Local :=
  if l.state &&& 0x3 ≠ pads.status ∨ l.interrupt = true then
    { state := l.state <<< 2 ||| pads.status
      pulses := (l.pulses + decode l.state pads).tmod resolution
      interrupt := false
      net := l.net + oneClick resolution (l.pulses + decode l.state pads) }
  else l

/-- A sample of the interrupt -/
def sample (pads : Pads) (l : Local) : Local :=
  { l with state := l.state <<< 2 ||| pads.status, pulses := l.pulses + decode l.state pads, interrupt := true }

end Local

section Numbers

/-- A sample that is the last one again makes no step. -/
theorem decode_same {state : BitVec 8} {pads : Pads} (same : state &&& 0x3 = pads.status) : decode state pads = 0 := by
  obtain ⟨a, b⟩ := pads
  revert state
  revert a b
  decide

theorem div_eq_one_iff {resolution n : Nat} (pos : 0 < resolution) :
    n / resolution = (if resolution ≤ n then 1 else 0) ↔ n < 2 * resolution := by
  split
  next enough =>
    rw [Nat.div_eq_iff pos]
    omega
  next few =>
    rw [Nat.div_eq_zero_iff]
    omega

/-- One click for all full turns of the counter is right for less than two. -/
theorem tdiv_eq_oneClick {resolution : Nat} (pos : 0 < resolution) (pulses : Int) :
    pulses.tdiv resolution = oneClick resolution pulses ↔ pulses.natAbs < 2 * resolution := by
  have turns := div_eq_one_iff (n := pulses.natAbs) pos
  obtain ⟨n, same | same⟩ := pulses.eq_nat_or_neg
  · subst same
    rw [Int.natAbs_natCast] at turns ⊢
    rw [← turns, ← Int.ofNat_tdiv]
    unfold oneClick
    have up : ¬ ((n : Int) ≤ -resolution) := by omega
    have down : ((resolution : Int) ≤ n) ↔ resolution ≤ n := by omega
    rw [if_neg up, Int.sub_zero]
    simp only [down]
    split <;> omega
  · subst same
    rw [Int.natAbs_neg, Int.natAbs_natCast] at turns ⊢
    rw [← turns, Int.neg_tdiv, ← Int.ofNat_tdiv]
    unfold oneClick
    have up : ¬ ((resolution : Int) ≤ -n) := by omega
    have down : (-(n : Int) ≤ -resolution) ↔ resolution ≤ n := by omega
    rw [if_neg up, Int.zero_sub]
    simp only [down]
    split <;> omega

/-- What is left is less than a click, and still fits. -/
theorem tmod_bounds {resolution : Nat} (pos : 0 < resolution) {pulses : Int} (fits : Fits pulses) :
    (pulses.tmod resolution).natAbs < resolution ∧ Fits (pulses.tmod resolution) := by
  have abs : (pulses.tmod resolution).natAbs = pulses.natAbs % resolution := Int.natAbs_tmod _ _
  have less := Nat.mod_lt pulses.natAbs pos
  have most := Nat.mod_le pulses.natAbs resolution
  obtain ⟨low, high⟩ := fits
  refine ⟨by rw [abs]; exact less, ?_⟩
  rcases Int.le_total 0 pulses with up | down
  · have sign := Int.tmod_nonneg (resolution : Int) up
    exact ⟨by omega, by omega⟩
  · have sign := Int.tmod_nonneg (resolution : Int) (Int.neg_nonneg_of_nonpos down)
    rw [Int.neg_tmod] at sign
    exact ⟨by omega, by omega⟩

/-- A sum that fits is not cut off. -/
theorem toInt_add_ofInt {x : BitVec 8} {d : Int} (fits : Fits (x.toInt + d)) : (x + BitVec.ofInt 8 d).toInt = x.toInt + d := by
  obtain ⟨low, high⟩ := fits
  rw [BitVec.toInt_add, BitVec.toInt_ofInt, Int.add_bmod_bmod]
  exact Int.bmod_eq_of_le (by omega) (by omega)

theorem toInt_ofInt {d : Int} (fits : Fits d) : (BitVec.ofInt 8 d).toInt = d := by
  obtain ⟨low, high⟩ := fits
  rw [BitVec.toInt_ofInt]
  exact Int.bmod_eq_of_le (by omega) (by omega)

end Numbers

/-! ## The arrays -/

namespace State

variable {cfg : Config} {s : State} {i j : Nat} {pads : Nat → Pads}

theorem counterClockwise_ne (cfg : Config) : cfg.clockwise ≠ cfg.counterClockwise := by
  unfold Config.clockwise Config.counterClockwise
  cases cfg.directionFlip <;> decide

theorem net_up (index : Nat) (value : BitVec 8) :
    (s.click cfg index value cfg.counterClockwise).net cfg j = s.net cfg j + if index = j then 1 else 0 := by
  simp [net, click, Click.net]

theorem net_down (index : Nat) (value : BitVec 8) :
    (s.click cfg index value cfg.clockwise).net cfg j = s.net cfg j - if index = j then 1 else 0 := by
  have ne := counterClockwise_ne cfg
  by_cases same : index = j
  · simp [net, click, Click.net, same, ne]
    rfl
  · simp [net, click, Click.net, same]

/-- What `encoder_update` does with the pulses `p` after the step -/
theorem encoderUpdate_spec (state : BitVec 8) :
    let p := s.encoderPulses i + BitVec.ofInt 8 (lutStep state)
    let resolution := (cfg.encoderResolutions i).toNat
    let t := (s.encoderUpdate cfg i state).2
    t.encoderState = s.encoderState ∧ t.encoderInterruptUpdate = s.encoderInterruptUpdate ∧
      t.encoderPulses = Function.update s.encoderPulses i (BitVec.ofInt 8 (p.toInt.tmod resolution)) ∧
      ∀ j, t.net cfg j = s.net cfg j + if i + cfg.thisHand = j then oneClick resolution p.toInt else 0 := by
  have reduced (x : State) (j : Nat) : (x.reduce cfg i).net cfg j = x.net cfg j := rfl
  have added (j : Nat) : (s.addStep i state).net cfg j = s.net cfg j := rfl
  have states : (s.addStep i state).encoderState = s.encoderState := rfl
  have interrupts : (s.addStep i state).encoderInterruptUpdate = s.encoderInterruptUpdate := rfl
  have pulses : (s.addStep i state).encoderPulses i = s.encoderPulses i + BitVec.ofInt 8 (lutStep state) := by
    simp [addStep]
  have overwritten (x : BitVec 8) :
      Function.update (s.addStep i state).encoderPulses i x = Function.update s.encoderPulses i x := by
    simp [addStep]
  unfold encoderUpdate
  rw [← pulses]
  rw [← states, ← interrupts]
  generalize s.addStep i state = t at added overwritten ⊢
  dsimp only
  refine ⟨?_, ?_, ?_, fun j => ?_⟩
  · split_ifs <;> rfl
  · split_ifs <;> rfl
  · rw [← overwritten]
    split_ifs <;> rfl
  · rw [reduced, ← added j]
    unfold oneClick
    by_cases up : ((cfg.encoderResolutions i).toNat : Int) ≤ (t.encoderPulses i).toInt <;>
      by_cases down : (t.encoderPulses i).toInt ≤ -((cfg.encoderResolutions i).toNat : Int) <;>
        simp only [up, down, decide_true, decide_false, if_true, if_false, net_up, net_down, Bool.false_eq_true] <;>
          split_ifs <;> omega

/-- The loop over the encoders reads each of them by itself. -/
theorem view_readOne {c : Bool} (fits : Fits ((s.encoderPulses j).toInt + decode (s.encoderState j) (pads j))) :
    (readOne cfg pads (c, s) j).2.view cfg i =
      if i = j then (s.view cfg i).read (cfg.encoderResolutions i).toNat (pads i) else s.view cfg i := by
  unfold readOne
  dsimp only
  by_cases sampled : s.encoderState j &&& 0x3 ≠ (pads j).status ∨ s.encoderInterruptUpdate j = true
  · rw [if_pos sampled]
    obtain ⟨states, interrupts, pulses, net⟩ := @encoderUpdate_spec cfg
      { s with encoderState := Function.update s.encoderState j (s.encoderState j <<< 2 ||| (pads j).status) } j
      (s.encoderState j <<< 2 ||| (pads j).status)
    have counted : (s.encoderPulses j + BitVec.ofInt 8 (lutStep (s.encoderState j <<< 2 ||| (pads j).status))).toInt =
        (s.encoderPulses j).toInt + decode (s.encoderState j) (pads j) := toInt_add_ofInt fits
    obtain ⟨less, left⟩ := tmod_bounds (cfg.resolution_pos j) fits
    rw [counted] at pulses net
    simp only [Function.update_self]
    generalize encoderUpdate cfg j (s.encoderState j <<< 2 ||| (pads j).status)
      { s with encoderState := Function.update s.encoderState j (s.encoderState j <<< 2 ||| (pads j).status) } = x at *
    show Local.mk (x.2.encoderState i) (x.2.encoderPulses i).toInt
      (Function.update x.2.encoderInterruptUpdate j false i) (x.2.net cfg (i + cfg.thisHand)) = _
    rw [states, interrupts, pulses, net (i + cfg.thisHand)]
    have before : State.net cfg (i + cfg.thisHand)
      { s with encoderState := Function.update s.encoderState j (s.encoderState j <<< 2 ||| (pads j).status) } =
        s.net cfg (i + cfg.thisHand) := rfl
    rw [before]
    by_cases same : i = j
    · subst same
      simp only [if_true, Local.read, view, Function.update_self, toInt_ofInt left]
      exact (if_pos sampled).symm
    · have apart : ¬ j + cfg.thisHand = i + cfg.thisHand := by omega
      simp only [Function.update_of_ne same, if_neg same, if_neg apart, Int.add_zero, view]
  · rw [if_neg sampled]
    by_cases same : i = j
    · subst same
      rw [if_pos rfl]
      unfold Local.read
      exact (if_neg sampled).symm
    · rw [if_neg same]

/-- The steps of the samples fit into the counters. -/
def ReadFits (cfg : Config) (pads : Nat → Pads) (s : State) : Prop :=
  ∀ i < cfg.thisCount, Fits ((s.encoderPulses i).toInt + decode (s.encoderState i) (pads i))

/-- **The main loop** reads every encoder. -/
theorem view_encoderRead (fits : ReadFits cfg pads s) (i : Nat) :
    (s.encoderRead cfg pads).2.view cfg i =
      if i < cfg.thisCount then (s.view cfg i).read (cfg.encoderResolutions i).toNat (pads i) else s.view cfg i := by
  have turns (m : Nat) (le : m ≤ cfg.thisCount) (i : Nat) :
      ((List.range m).foldl (readOne cfg pads) (false, s)).2.view cfg i =
        if i < m then (s.view cfg i).read (cfg.encoderResolutions i).toNat (pads i) else s.view cfg i := by
    induction m generalizing i with
    | zero => rfl
    | succ m ih =>
      have before := ih (by omega)
      rw [List.range_succ, List.foldl_append, List.foldl_cons, List.foldl_nil]
      generalize (List.range m).foldl (readOne cfg pads) (false, s) = x at before ⊢
      obtain ⟨c, t⟩ := x
      have here := before m
      rw [if_neg (Nat.lt_irrefl m)] at here
      have same := Local.mk.inj here
      rw [view_readOne (by rw [same.1, same.2.1]; exact fits m le), before i]
      by_cases last : i = m
      · subst last
        simp
      · have earlier : i < m + 1 ↔ i < m := by omega
        simp only [last, if_false, earlier]
  exact turns cfg.thisCount le_rfl i

/-- The interrupt samples one encoder. -/
theorem view_interrupt {p : Pads} (fits : Fits ((s.encoderPulses j).toInt + decode (s.encoderState j) p)) (i : Nat) :
    (s.encoderInerruptRead j p).view cfg i = if i = j then (s.view cfg i).sample p else s.view cfg i := by
  have counted : (s.encoderPulses j + BitVec.ofInt 8 (lutStep (s.encoderState j <<< 2 ||| p.status))).toInt =
      (s.encoderPulses j).toInt + decode (s.encoderState j) p := toInt_add_ofInt fits
  have net : (s.encoderInerruptRead j p).net cfg (i + cfg.thisHand) = s.net cfg (i + cfg.thisHand) := rfl
  unfold view
  rw [net]
  by_cases same : i = j
  · subst same
    simp [encoderInerruptRead, addStep, Local.sample, counted]
  · simp [encoderInerruptRead, addStep, same]

end State

/-! ## What a sample keeps -/

namespace Local

/-- The steps are accounted for. -/
def Conserved (resolution : Nat) (steps : Int) (l : Local) : Prop := steps = resolution * l.net + l.pulses

/-- Only the interrupt leaves pulses for a click behind. -/
def Settled (resolution : Nat) (l : Local) : Prop := l.interrupt = false → l.pulses.natAbs < resolution

variable {resolution : Nat} {steps : Int} {l : Local} {pads : Pads}

/-- The main loop loses steps exactly where it finds pulses for two clicks. -/
theorem conserved_read_iff (pos : 0 < resolution) (settled : l.Settled resolution) (conserved : l.Conserved resolution steps) :
    (l.read resolution pads).Conserved resolution (steps + decode l.state pads) ↔
      (l.pulses + decode l.state pads).natAbs < 2 * resolution := by
  unfold read
  split
  case isTrue sampled =>
    rw [← tdiv_eq_oneClick pos]
    unfold Conserved at conserved ⊢
    dsimp only
    generalize decode l.state pads = d at *
    have whole := Int.mul_tdiv_add_tmod (l.pulses + d) resolution
    rw [Int.mul_add]
    constructor
    · intro kept
      have product : (resolution : Int) * (l.pulses + d).tdiv resolution = resolution * oneClick resolution (l.pulses + d) := by
        linarith
      exact Int.eq_of_mul_eq_mul_left (by omega) product
    · intro same
      rw [same] at whole
      linarith
  case isFalse idle =>
    obtain ⟨same, quiet⟩ := not_or.1 idle
    have still := decode_same (not_not.1 same)
    have less := settled (Bool.eq_false_iff.2 quiet)
    rw [still, Int.add_zero, Int.add_zero]
    exact iff_of_true conserved (by omega)

/-- After the main loop less than a click is left. -/
theorem read_less (pos : 0 < resolution) (settled : l.Settled resolution) (fits : Fits (l.pulses + decode l.state pads)) :
    (l.read resolution pads).pulses.natAbs < resolution := by
  unfold read
  split
  case isTrue sampled => exact (tmod_bounds pos fits).1
  case isFalse idle => exact settled (Bool.eq_false_iff.2 (not_or.1 idle).2)

theorem conserved_sample (conserved : l.Conserved resolution steps) :
    (l.sample pads).Conserved resolution (steps + decode l.state pads) := by
  unfold Conserved sample at *
  dsimp only
  omega

end Local

/-! ## Runs -/

/-- What happens: the main loop reads all encoders, or the interrupt samples one. -/
inductive Event where
  | read (pads : Nat → Pads)
  | interrupt (index : Nat) (pads : Pads)

/-- The state, and the sum of the steps of every encoder, which is not in the code -/
structure World where
  state : State
  steps : Nat → Int

namespace World

variable (cfg : Config)

/-- The pads at the start, and nothing turned -/
def initial (pads : Nat → Pads) (value : Nat → BitVec 8) : World := ⟨.init pads value, fun _ => 0⟩

/-- A sample, with the step it makes from the one before -/
def step (w : World) : Event → World
  | .read pads =>
    { state := (w.state.encoderRead cfg pads).2
      steps := fun i => if i < cfg.thisCount then w.steps i + decode (w.state.encoderState i) (pads i) else w.steps i }
  | .interrupt index pads =>
    { state := w.state.encoderInerruptRead index pads
      steps := Function.update w.steps index (w.steps index + decode (w.state.encoderState index) pads) }

/-- The counter of the pulses does not overflow. -/
def NoOverflow (w : World) : Event → Prop
  | .read pads => w.state.ReadFits cfg pads
  | .interrupt index pads => Fits ((w.state.encoderPulses index).toInt + decode (w.state.encoderState index) pads)

/-- The main loop finds pulses for less than two clicks. -/
def InTime (w : World) : Event → Prop
  | .read pads => ∀ i < cfg.thisCount,
    ((w.state.encoderPulses i).toInt + decode (w.state.encoderState i) (pads i)).natAbs < 2 * (cfg.encoderResolutions i).toNat
  | .interrupt _ _ => True

/-- The steps of every encoder are accounted for. -/
def Conserved (w : World) : Prop := ∀ i,
  w.steps i = (cfg.encoderResolutions i).toNat * w.state.net cfg (i + cfg.thisHand) + (w.state.encoderPulses i).toInt

/-- What holds after an event: the steps are accounted for, and the main loop leaves less than a click. -/
def Right (w : World) (e : Event) : Prop :=
  (w.step cfg e).Conserved cfg ∧ match e with
    | .read _ => ∀ i < cfg.thisCount,
      ((w.step cfg e).state.encoderPulses i).toInt.natAbs < (cfg.encoderResolutions i).toNat
    | .interrupt _ _ => True

/-- The invariant -/
def Sound (w : World) : Prop := w.Conserved cfg ∧ ∀ i, (w.state.view cfg i).Settled (cfg.encoderResolutions i).toNat

instance (w : World) : (e : Event) → Decidable (w.NoOverflow cfg e)
  | .read _ => inferInstanceAs (Decidable (∀ i < cfg.thisCount, Fits _))
  | .interrupt _ _ => inferInstanceAs (Decidable (Fits _))

instance (w : World) : (e : Event) → Decidable (w.InTime cfg e)
  | .read _ => inferInstanceAs (Decidable (∀ i < cfg.thisCount, _ < _))
  | .interrupt _ _ => isTrue trivial

variable {cfg} {w : World}

/-- An encoder of this half after the main loop has read it -/
theorem view_read {pads : Nat → Pads} (fits : w.NoOverflow cfg (.read pads)) (i : Nat) :
    (w.step cfg (.read pads)).state.view cfg i =
      if i < cfg.thisCount then (w.state.view cfg i).read (cfg.encoderResolutions i).toNat (pads i) else w.state.view cfg i :=
  State.view_encoderRead fits i

theorem conserved_iff : w.Conserved cfg ↔ ∀ i, (w.state.view cfg i).Conserved (cfg.encoderResolutions i).toNat (w.steps i) := Iff.rfl

theorem inTime_iff {pads : Nat → Pads} : w.InTime cfg (.read pads) ↔ ∀ i < cfg.thisCount,
    ((w.state.view cfg i).pulses + decode (w.state.view cfg i).state (pads i)).natAbs < 2 * (cfg.encoderResolutions i).toNat :=
  Iff.rfl

/-- The sum of the steps after the main loop -/
theorem steps_read (pads : Nat → Pads) (i : Nat) : (w.step cfg (.read pads)).steps i =
    if i < cfg.thisCount then w.steps i + decode (w.state.view cfg i).state (pads i) else w.steps i := rfl

theorem steps_interrupt (index : Nat) (pads : Pads) (i : Nat) : (w.step cfg (.interrupt index pads)).steps i =
    if i = index then w.steps i + decode (w.state.view cfg i).state pads else w.steps i := by
  by_cases here : i = index
  · subst here
    simp [step, State.view]
  · simp [step, here]

theorem right_read_iff {pads : Nat → Pads} (sound : w.Sound cfg) (fits : w.NoOverflow cfg (.read pads)) :
    w.Right cfg (.read pads) ↔ w.InTime cfg (.read pads) := by
  obtain ⟨conserved, settled⟩ := sound
  rw [conserved_iff] at conserved
  have less : ∀ i < cfg.thisCount, ((w.step cfg (.read pads)).state.view cfg i).pulses.natAbs < (cfg.encoderResolutions i).toNat := by
    intro i here
    rw [view_read fits i, if_pos here]
    exact Local.read_less (cfg.resolution_pos i) (settled i) (fits i here)
  have each (i : Nat) :
      ((w.step cfg (.read pads)).state.view cfg i).Conserved (cfg.encoderResolutions i).toNat ((w.step cfg (.read pads)).steps i) ↔
        (i < cfg.thisCount → ((w.state.view cfg i).pulses + decode (w.state.view cfg i).state (pads i)).natAbs <
          2 * (cfg.encoderResolutions i).toNat) := by
    rw [view_read fits i, steps_read]
    by_cases here : i < cfg.thisCount
    · rw [if_pos here, if_pos here, Local.conserved_read_iff (cfg.resolution_pos i) (settled i) (conserved i)]
      simp only [here, true_implies]
    · rw [if_neg here, if_neg here]
      simp only [here, false_implies, iff_true]
      exact conserved i
  rw [inTime_iff]
  constructor
  · exact fun right i here => (each i).1 (conserved_iff.1 right.1 i) here
  · exact fun inTime => ⟨conserved_iff.2 fun i => (each i).2 (inTime i), less⟩

/-- An encoder after the interrupt -/
theorem view_interrupt {index : Nat} {pads : Pads} (fits : w.NoOverflow cfg (.interrupt index pads)) (i : Nat) :
    (w.step cfg (.interrupt index pads)).state.view cfg i =
      if i = index then (w.state.view cfg i).sample pads else w.state.view cfg i :=
  State.view_interrupt fits i

theorem right_interrupt {index : Nat} {pads : Pads} (sound : w.Sound cfg) (fits : w.NoOverflow cfg (.interrupt index pads)) :
    w.Right cfg (.interrupt index pads) := by
  refine ⟨conserved_iff.2 fun i => ?_, trivial⟩
  have conserved := conserved_iff.1 sound.1 i
  rw [view_interrupt fits i, steps_interrupt]
  split
  case isTrue => exact Local.conserved_sample conserved
  case isFalse => exact conserved

/-- Pulses for a click are left behind by the interrupt alone. -/
theorem settled_step {e : Event} (sound : w.Sound cfg) (fits : w.NoOverflow cfg e) (i : Nat) :
    ((w.step cfg e).state.view cfg i).Settled (cfg.encoderResolutions i).toNat := by
  cases e with
  | read pads =>
    rw [view_read fits i]
    split
    case isTrue here => exact fun _ => Local.read_less (cfg.resolution_pos i) (sound.2 i) (fits i here)
    case isFalse => exact sound.2 i
  | interrupt index pads =>
    rw [view_interrupt fits i]
    split
    case isTrue => exact fun idle => Bool.noConfusion idle
    case isFalse => exact sound.2 i

/-- **Steps are conserved** along a run, and less than a click is left behind by the main loop, if and only if it always
comes in time. -/
theorem turns_conserved_iff (pads : Nat → Pads) (value : Nat → BitVec 8) {events : List Event}
    (fits : Along (step cfg) (NoOverflow cfg) (initial pads value) events) :
    Along (step cfg) (Right cfg) (initial pads value) events ↔ Along (step cfg) (InTime cfg) (initial pads value) events := by
  have start : Sound cfg (initial pads value) := by
    refine ⟨fun i => rfl, fun i _ => ?_⟩
    exact cfg.resolution_pos i
  have both : Along (step cfg) (fun w e => w.NoOverflow cfg e ∧ w.Right cfg e) (initial pads value) events ↔
      Along (step cfg) (fun w e => w.NoOverflow cfg e ∧ w.InTime cfg e) (initial pads value) events := by
    refine Along.congr (Sound cfg) (fun w e sound => ?_) (fun w e sound here => ⟨here.2.1, settled_step sound here.1⟩) start
    refine and_congr_right fun fits => ?_
    cases e with
    | read pads => exact right_read_iff sound fits
    | interrupt index pads => exact iff_of_true (right_interrupt sound fits) trivial
  constructor
  · exact fun right => (both.1 (fits.and right)).mono fun _ _ h => h.2
  · exact fun inTime => (both.2 (fits.and inTime)).mono fun _ _ h => h.2

/-- One encoder, with four steps for a click -/
def single : Config where
  directionFlip := false
  encoderResolutions _ := 4
  resolution_pos _ := by decide
  thisCount := 1
  thatCount := 0
  thisHand := 0
  thatHand := 0
  shouldProcessEncoder := true

/-- The samples of a counter-clockwise turn by a click -/
def turn : List Event := [⟨false, true⟩, ⟨true, true⟩, ⟨true, false⟩, ⟨false, false⟩].map (.interrupt 0)

/-- The main loop comes after each click. -/
theorem turns_conserved_iff_single :
    Along (step single) (Right single) (initial (fun _ => ⟨false, false⟩) fun _ => 0)
      (turn ++ [.read fun _ => ⟨false, false⟩] ++ turn ++ [.read fun _ => ⟨true, false⟩]) :=
  (turns_conserved_iff _ _ (by decide)).2 (by decide)

/-- The main loop comes after two clicks, and counts one of them. -/
theorem click_lost :
    let events := turn ++ turn ++ [.read fun _ => ⟨false, false⟩]
    let w := events.foldl (step single) (initial (fun _ => ⟨false, false⟩) fun _ => 0)
    Along (step single) (NoOverflow single) (initial (fun _ => ⟨false, false⟩) fun _ => 0) events ∧
      (w.steps 0 = 8 ∧ w.state.clicks = [⟨0, false, true⟩] ∧ w.state.encoderPulses 0 = 0) ∧ ¬ w.Conserved single := by
  refine ⟨by decide, by decide, fun conserved => ?_⟩
  have first := conserved 0
  revert first
  decide

end World

end QmkFirmware.Encoder
