import QmkFirmware.Lib.Memory

/-!
# The hits of the reactive effects

`process_rgb_matrix` and `rgb_task_timers` of `rgb_matrix.c`: the last keys that were hit, in
four arrays with one count, and how long ago each was.
-/

namespace QmkFirmware.RgbMatrix
open Lib

/-- `NO_LED` -/
def noLed : BitVec 8 := 255

/-- Which events count as hits: `RGB_MATRIX_KEYRELEASES`, `RGB_MATRIX_KEYPRESSES` or all of them -/
inductive Reaction where
  | keyReleases | keyPresses | all
  deriving DecidableEq

def Reaction.counts : Reaction → (pressed : Bool) → Bool
  | .keyReleases, pressed => !pressed
  | .keyPresses, pressed => pressed
  | .all, _ => true

/-- `LED_HITS_TO_REMEMBER`, `g_led_config` and what `rgb_matrix_map_row_column_to_led_kb` writes into `led_i` -/
structure Config where
  ledHitsToRemember : Nat
  reaction : Reaction
  matrixCo : (row column : BitVec 8) → BitVec 8
  point : BitVec 8 → BitVec 8 × BitVec 8
  mapRowColumnToLedKb : (row column : BitVec 8) → List (BitVec 8)

/-- `rgb_matrix_map_row_column_to_led`: the LEDs of a key -/
def Config.mapRowColumnToLed (cfg : Config) (row column : BitVec 8) : List (BitVec 8) :=
  let led := cfg.mapRowColumnToLedKb row column
  let ledIndex := cfg.matrixCo row column
  if ledIndex ≠ noLed then led ++ [ledIndex] else led

/-- `last_hit_t` -/
structure LastHit where
  count : BitVec 8
  x : Nat → BitVec 8
  y : Nat → BitVec 8
  index : Nat → BitVec 8
  tick : Nat → BitVec 16

namespace LastHit

/-- `memcpy` from the entry `k` of an array on to its start, up to its end -/
def toStart {α : Type} (size k : Nat) (m : Nat → α) : Nat → α := patch m 0 (slice m k (size - k))

/-- The oldest make room. -/
def shift (size ledCount : Nat) (b : LastHit) : LastHit where
  count := BitVec.ofNat 8 (size - ledCount)
  x := toStart size ledCount b.x
  y := toStart size ledCount b.y
  index := toStart size ledCount b.index
  tick := toStart size ledCount b.tick

/-- One turn of the loop over the LEDs -/
def append (cfg : Config) (b : LastHit) (led : BitVec 8) : LastHit where
  count := b.count + 1
  x := Function.update b.x b.count.toNat (cfg.point led).1
  y := Function.update b.y b.count.toNat (cfg.point led).2
  index := Function.update b.index b.count.toNat led
  tick := Function.update b.tick b.count.toNat 0

/-- `process_rgb_matrix` -/
def processRgbMatrix (cfg : Config) (row column : BitVec 8) (pressed : Bool) (b : LastHit) : LastHit :=
  let led := if cfg.reaction.counts pressed then cfg.mapRowColumnToLed row column else []
  let b := if cfg.ledHitsToRemember < b.count.toNat + led.length then b.shift cfg.ledHitsToRemember led.length else b
  led.foldl (append cfg) b

/-- Whether an entry expires: `UINT16_MAX - deltaTime < tick`, in 32 bits without a sign -/
def expires (deltaTime : BitVec 32) (tick : BitVec 16) : Bool := 0xFFFF - deltaTime < tick.zeroExtend 32

/-- One turn of the loop of `rgb_task_timers` -/
def turn (deltaTime : BitVec 32) (b : LastHit) (i : Nat) : LastHit :=
  if expires deltaTime (b.tick i) then { b with count := b.count - 1 }
  else { b with tick := Function.update b.tick i (b.tick i + deltaTime.truncate 16) }

/-- `rgb_task_timers`; the loop goes up to the count at its start. -/
def rgbTaskTimers (deltaTime : BitVec 32) (b : LastHit) : LastHit := (List.range b.count.toNat).foldl (turn deltaTime) b

/-- `rgb_matrix_init` -/
def init (size : Nat) (b : LastHit) : LastHit := { b with count := 0, tick := patch b.tick 0 (List.replicate size 0xFFFF) }

end LastHit

/-- What happens: a key is pressed or released, or the timers are advanced. -/
inductive Event where
  | key (row column : BitVec 8) (pressed : Bool)
  | timers (deltaTime : BitVec 32)

def LastHit.step (cfg : Config) (b : LastHit) : Event → LastHit
  | .key row column pressed => b.processRgbMatrix cfg row column pressed
  | .timers deltaTime => b.rgbTaskTimers deltaTime

end QmkFirmware.RgbMatrix
