import Mathlib

/-!
# Steno

`process_steno.c`: the keys of a stroke are collected as bits of `chord`, and the chord is sent
when no key is counted as held any more. A packet is the list of the bytes that are sent for it.
-/

namespace QmkFirmware.Steno

def qkSteno : Nat := 0x74C0
def qkStenoMax : Nat := 0x74FF
def qkStenoBolt : Nat := 0x74F0
def qkStenoGemini : Nat := 0x74F1
def qkStenoComb : Nat := 0x74F2
def qkStenoCombMax : Nat := 0x74FC
/-- `STN__MAX`, the last of the 42 keys of a chord; `STN__MIN` is `QK_STENO`. -/
def stnMax : Nat := qkSteno + 41

/-- `steno_mode_t` -/
inductive Mode where
  | gemini
  | bolt
  deriving DecidableEq

/-- `STENO_ENABLE_GEMINI`, `STENO_ENABLE_BOLT` or, for both of them, `STENO_ENABLE_ALL` -/
inductive Enabled where
  | gemini
  | bolt
  | all
  deriving DecidableEq

/-- The build; `combinedMap` says if `STENO_COMBINEDMAP` is defined. -/
structure Config where
  enabled : Enabled
  combinedMap : Bool

/-- `MAX_STROKE_SIZE` -/
def Config.maxStrokeSize (c : Config) : Nat := if c.enabled = .bolt then 4 else 6

structure State where
  chord : List Nat
  nPressedKeys : Int
  mode : Mode

/-! ## Gemini PR -/

/-- `send_steno_chord_gemini` -/
def sendStenoChordGemini (chord : List Nat) : List Nat := (chord.modify 0 (· ||| 0x80)).take 6

/-- `add_gemini_key_to_chord` -/
def addGeminiKeyToChord (chord : List Nat) (key : Nat) : List Nat :=
  let groupIdx := key / 7
  let intraGroupIdx := key - groupIdx * 7
  chord.modify groupIdx (· ||| 1 <<< (6 - intraGroupIdx))

/-! ## TX Bolt -/

/-- `boltmap`, without the zeros behind the last key -/
def boltmap : List Nat :=
  let num := 0b11010000
  let str := 0b01001000
  [0, num, num, num, num, num, num, 0b00000001, 0b00000001, 0b00000010, 0b00000100, 0b00001000, 0b00010000, 0b00100000,
    0b01000001, 0b01000010, 0b01000100, str, str, 0, 0, 0, str, str, 0b01010000, 0b01100000, 0b10000001, 0b10000010,
    0b10000100, 0b10001000, 0b10010000, 0b10100000, 0b11000001, 0b11000010, 0b11000100, num, num, num, num, num, num,
    0b11001000]

/-- The code of a key, from `boltmap` -/
def boltCode (key : Nat) : Nat := boltmap.getD key 0

/-- `send_steno_chord_bolt` -/
def sendStenoChordBolt (chord : List Nat) : List Nat := (chord.take 4).filter (· ≠ 0) ++ [0]

/-- `add_bolt_key_to_chord`; the group of a code is `TXB_GET_GROUP`. -/
def addBoltKeyToChord (chord : List Nat) (key : Nat) : List Nat :=
  chord.modify ((boltCode key &&& 0b11000000) >>> 6) (· ||| boltCode key)

/-! ## The keys -/

/-- `combinedmap_first` -/
def combinedmapFirst : List Nat := [7, 9, 11, 13, 26, 28, 30, 32, 34, 15, 24].map (qkSteno + ·)

/-- `combinedmap_second` -/
def combinedmapSecond : List Nat := [8, 10, 12, 14, 27, 29, 31, 33, 41, 16, 25].map (qkSteno + ·)

/-- `steno_clear_chord` -/
def State.clearChord (s : State) : State := { s with chord := s.chord.map fun _ => 0 }

/-- `steno_set_mode` -/
def State.setMode (s : State) (newMode : Mode) : State := { s.clearChord with mode := newMode }

/-- The press and the release of a key from `STN__MIN` to `STN__MAX` in `process_steno`, with the default
user hooks. The count is an `int8_t`. -/
def processKey (keycode : Nat) (pressed : Bool) (s : State) : State × List (List Nat) :=
  if pressed then
    let s := { s with nPressedKeys := (s.nPressedKeys + 1).bmod 256 }
    match s.mode with
    | .bolt => ({ s with chord := addBoltKeyToChord s.chord (keycode - qkSteno) }, [])
    | .gemini => ({ s with chord := addGeminiKeyToChord s.chord (keycode - qkSteno) }, [])
  else
    let s := { s with nPressedKeys := (s.nPressedKeys - 1).bmod 256 }
    if 0 < s.nPressedKeys then (s, [])
    else
      let s := { s with nPressedKeys := 0 }
      match s.mode with
      | .bolt => (s.clearChord, [sendStenoChordBolt s.chord])
      | .gemini => (s.clearChord, [sendStenoChordGemini s.chord])

/-- `process_steno`: the state, the packets sent and whether the key is passed on. -/
def processSteno (c : Config) (keycode : Nat) (pressed : Bool) (s : State) : State × List (List Nat) × Bool :=
  if keycode < qkSteno ∨ qkStenoMax < keycode then (s, [], true)
  else if c.enabled = .all ∧ keycode = qkStenoBolt then (if pressed then s.setMode .bolt else s, [], false)
  else if c.enabled = .all ∧ keycode = qkStenoGemini then (if pressed then s.setMode .gemini else s, [], false)
  else if c.combinedMap ∧ qkStenoComb ≤ keycode ∧ keycode ≤ qkStenoCombMax then
    let first := processKey (combinedmapFirst.getD (keycode - qkStenoComb) 0) pressed s
    let second := processKey (combinedmapSecond.getD (keycode - qkStenoComb) 0) pressed first.1
    (second.1, first.2 ++ second.2, false)
  else if keycode ≤ stnMax then
    let key := processKey keycode pressed s
    (key.1, key.2, false)
  else (s, [], false)

end QmkFirmware.Steno
