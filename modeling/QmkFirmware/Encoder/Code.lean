import Mathlib

/-!
# Encoders

`encoder.c`: the pads of an encoder are sampled by the main loop and by an interrupt, two
samples in a row are looked up as a step, and the steps are collected into clicks. A slave
half publishes the counters of its clicks, and the master follows them.
-/

namespace QmkFirmware.Encoder

/-- `encoder_LUT` -/
def encoderLUT : List Int := [0, -1, 1, 0, 1, 0, 0, -1, -1, 0, 0, 1, 0, 1, -1, 0]

/-- The pads of an encoder -/
structure Pads where
  a : Bool
  b : Bool
  deriving DecidableEq

/-- `(readPin(encoders_pad_a[i]) << 0) | (readPin(encoders_pad_b[i]) << 1)` -/
def Pads.status (p : Pads) : BitVec 8 := (BitVec.ofBool p.a).zeroExtend 8 ||| (BitVec.ofBool p.b).zeroExtend 8 <<< 1

/-- `ENCODER_DIRECTION_FLIP`, `encoder_resolutions`, `thisCount`, `thatCount`, `thisHand` and `thatHand`, and
`should_process_encoder` -/
structure Config where
  directionFlip : Bool
  encoderResolutions : Nat → BitVec 8
  resolution_pos : ∀ i, 0 < (encoderResolutions i).toNat
  thisCount : Nat
  thatCount : Nat
  thisHand : Nat
  thatHand : Nat
  shouldProcessEncoder : Bool

/-- `ENCODER_CLOCKWISE` -/
def Config.clockwise (cfg : Config) : Bool := !cfg.directionFlip
/-- `ENCODER_COUNTER_CLOCKWISE` -/
def Config.counterClockwise (cfg : Config) : Bool := cfg.directionFlip

/-- A click that is counted, and whether `encoder_update_kb` is called for it -/
structure Click where
  index : Nat
  clockwise : Bool
  emitted : Bool
  deriving DecidableEq

/-- The static arrays of the file; the pulses have a sign. And the clicks so far -/
structure State where
  encoderState : Nat → BitVec 8
  encoderPulses : Nat → BitVec 8
  encoderInterruptUpdate : Nat → Bool
  encoderValue : Nat → BitVec 8
  clicks : List Click

namespace State

variable (cfg : Config)

/-- `encoder_init`, with the values it finds -/
def init (pads : Nat → Pads) (value : Nat → BitVec 8) : State where
  encoderState i := (pads i).status
  encoderPulses _ := 0
  encoderInterruptUpdate _ := false
  encoderValue := value
  clicks := []

/-- What `encoder_LUT` says of a sequence of states -/
def lutStep (state : BitVec 8) : Int := encoderLUT.getD (state &&& 0xF).toNat 0

/-- `encoder_value[index]++` or `--`, with the click -/
def click (index : Nat) (value : BitVec 8) (clockwise : Bool) (s : State) : State :=
  { s with
    encoderValue := Function.update s.encoderValue index (s.encoderValue index + value)
    clicks := s.clicks ++ [⟨index, clockwise, cfg.shouldProcessEncoder⟩] }

/-- `encoder_pulses[i] += encoder_LUT[state & 0xF]` -/
def addStep (i : Nat) (state : BitVec 8) (s : State) : State :=
  { s with encoderPulses := Function.update s.encoderPulses i (s.encoderPulses i + BitVec.ofInt 8 (lutStep state)) }

/-- `encoder_pulses[i] %= resolution`, with the sign of the pulses -/
def reduce (i : Nat) (s : State) : State :=
  { s with
    encoderPulses := Function.update s.encoderPulses i
      (BitVec.ofInt 8 ((s.encoderPulses i).toInt.tmod (cfg.encoderResolutions i).toNat)) }

/-- `encoder_update`: whether a click was counted, and the state -/
def encoderUpdate (i : Nat) (state : BitVec 8) (s : State) : Bool × State :=
  let index := i + cfg.thisHand
  let resolution : Int := (cfg.encoderResolutions i).toNat
  let s := s.addStep i state
  let pulses := (s.encoderPulses i).toInt
  let up : Bool := resolution ≤ pulses
  let s := if up then s.click cfg index 1 cfg.counterClockwise else s
  let down : Bool := pulses ≤ -resolution
  let s := if down then s.click cfg index (-1) cfg.clockwise else s
  (up || down, s.reduce cfg i)

/-- One turn of the loop of `encoder_read` -/
def readOne (pads : Nat → Pads) (x : Bool × State) (i : Nat) : Bool × State :=
  let (changed, s) := x
  let newStatus := (pads i).status
  if s.encoderState i &&& 0x3 ≠ newStatus ∨ s.encoderInterruptUpdate i = true then
    let s := { s with encoderState := Function.update s.encoderState i (s.encoderState i <<< 2 ||| newStatus) }
    let (clicked, s) := s.encoderUpdate cfg i (s.encoderState i)
    (changed || clicked, { s with encoderInterruptUpdate := Function.update s.encoderInterruptUpdate i false })
  else (changed, s)

/-- `encoder_read` -/
def encoderRead (pads : Nat → Pads) (s : State) : Bool × State := (List.range cfg.thisCount).foldl (readOne cfg pads) (false, s)

/-- `encoder_inerrupt_read` -/
def encoderInerruptRead (index : Nat) (pads : Pads) (s : State) : State :=
  let state := s.encoderState index <<< 2 ||| pads.status
  let s := { s with encoderState := Function.update s.encoderState index state }
  let s := s.addStep index state
  { s with encoderInterruptUpdate := Function.update s.encoderInterruptUpdate index true }

/-- `encoder_state_raw` -/
def encoderStateRaw (s : State) : List (BitVec 8) := (List.range cfg.thisCount).map fun i => s.encoderValue (cfg.thisHand + i)

/-- The two `while` loops of `encoder_update_raw`: as many clicks as `delta` says -/
def follow (index : Nat) : (turns : Nat) → (delta : Int) → State → State
  | 0, _, s => s
  | turns + 1, delta, s =>
    if 0 < delta then follow index turns (delta - 1) (s.click cfg index 1 cfg.counterClockwise)
    else if delta < 0 then follow index turns (delta + 1) (s.click cfg index (-1) cfg.clockwise)
    else s

/-- One turn of the loop of `encoder_update_raw` -/
def updateRawOne (slaveState : List (BitVec 8)) (s : State) (i : Nat) : State :=
  let index := i + cfg.thatHand
  let delta := (slaveState.getD i 0 - s.encoderValue index).toInt
  s.follow cfg index delta.natAbs delta

/-- `encoder_update_raw`; it calls `encoder_update_kb` for every click. -/
def encoderUpdateRaw (slaveState : List (BitVec 8)) (s : State) : State :=
  (List.range cfg.thatCount).foldl (updateRawOne { cfg with shouldProcessEncoder := true } slaveState) s

end State

end QmkFirmware.Encoder
