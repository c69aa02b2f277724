import Mathlib

/-!
# Dynamic macros

`process_dynamic_macro.c`. Two macros share one buffer: the first grows up from its
beginning, the second one down from its end. A pointer into the buffer is the index of
its element, which is -1 or the size where the pointer is one off the buffer.
-/

namespace QmkFirmware.DynamicMacro

variable {R : Type}

/-- The two macros -/
inductive Slot where
  | one | two
  deriving DecidableEq

/-- The variables of `process_dynamic_macro`; nothing in `macroId` is 0. -/
structure State (R : Type) where
  buffer : Int → R
  macroEnd : Int
  rMacroEnd : Int
  macroPointer : Int
  macroId : Option Slot

/-- `QK_DYNAMIC_MACRO_RECORD_START_1` -/
def recordStart1 : UInt16 := 0x7C53
/-- `QK_DYNAMIC_MACRO_RECORD_START_2` -/
def recordStart2 : UInt16 := 0x7C54
/-- `QK_DYNAMIC_MACRO_RECORD_STOP` -/
def recordStop : UInt16 := 0x7C55
/-- `QK_DYNAMIC_MACRO_PLAY_1` -/
def play1 : UInt16 := 0x7C56
/-- `QK_DYNAMIC_MACRO_PLAY_2` -/
def play2 : UInt16 := 0x7C57

/-- `DYNAMIC_MACRO_SIZE`, `DYNAMIC_MACRO_NO_NESTING`, `dynamic_macro_valid_key_user`, and `event.pressed` of a record -/
structure Config (R : Type) where
  size : Nat
  noNesting : Bool
  validKeyUser : UInt16 → R → Bool
  pressed : R → Bool

/-- `+1` or `-1` -/
def Slot.direction : Slot → Int
  | one => 1
  | two => -1

namespace Config

variable (cfg : Config R)

/-- `macro_buffer` and `r_macro_buffer` -/
def start : Slot → Int
  | .one => 0
  | .two => cfg.size - 1

/-- At the start both macros are empty. -/
def initial (buffer : Int → R) : State R := ⟨buffer, 0, cfg.size - 1, 0, none⟩

/-- `dynamic_macro_record_key`: the buffer and the pointer -/
def recordKey (macroBuffer macroPointer macro2End direction : Int) (record : R) (buffer : Int → R) : (Int → R) × Int :=
  if cfg.pressed record = false ∧ macroPointer = macroBuffer then (buffer, macroPointer)
  else if macroPointer - direction ≠ macro2End then
    (Function.update buffer macroPointer record, macroPointer + direction)
  else (buffer, macroPointer)

/-- The loop of `dynamic_macro_record_end`. It turns at most as often as the macro has elements. -/
def recordEnd (macroBuffer direction : Int) (buffer : Int → R) : (turns : Nat) → Int → Int
  | 0, macroPointer => macroPointer
  | turns + 1, macroPointer =>
    if macroPointer ≠ macroBuffer ∧ cfg.pressed (buffer (macroPointer - direction)) then
      recordEnd macroBuffer direction buffer turns (macroPointer - direction)
    else macroPointer

/-- What a call comes to: the key is processed further, it is not, or a macro is played. -/
inductive Outcome where
  | passed | handled | plays (slot : Slot)
  deriving DecidableEq

/-- `process_dynamic_macro` while a macro is recorded -/
def recording (slot : Slot) (keycode : UInt16) (record : R) (s : State R) : State R × Outcome :=
  if keycode = recordStart1 ∨ keycode = recordStart2 ∨ keycode = recordStop then
    if cfg.pressed record ^^ decide (keycode ≠ recordStop) then
      match slot with
      | .one => ({ s with macroEnd := cfg.recordEnd (cfg.start .one) 1 s.buffer cfg.size s.macroPointer, macroId := none }, .handled)
      | .two => ({ s with rMacroEnd := cfg.recordEnd (cfg.start .two) (-1) s.buffer cfg.size s.macroPointer, macroId := none }, .handled)
    else (s, .handled)
  else if cfg.noNesting ∧ (keycode = play1 ∨ keycode = play2) then (s, .handled)
  else if cfg.validKeyUser keycode record then
    match slot with
    | .one =>
      let (buffer, pointer) := cfg.recordKey (cfg.start .one) s.macroPointer s.rMacroEnd 1 record s.buffer
      ({ s with buffer := buffer, macroPointer := pointer }, .passed)
    | .two =>
      let (buffer, pointer) := cfg.recordKey (cfg.start .two) s.macroPointer s.macroEnd (-1) record s.buffer
      ({ s with buffer := buffer, macroPointer := pointer }, .passed)
  else (s, .passed)

/-- `process_dynamic_macro` -/
def processDynamicMacro (keycode : UInt16) (record : R) (s : State R) : State R × Outcome :=
  match s.macroId with
  | none =>
    if cfg.pressed record then (s, .passed)
    else if keycode = recordStart1 then ({ s with macroPointer := cfg.start .one, macroId := some .one }, .handled)
    else if keycode = recordStart2 then ({ s with macroPointer := cfg.start .two, macroId := some .two }, .handled)
    else if keycode = play1 then (s, .plays .one)
    else if keycode = play2 then (s, .plays .two)
    else (s, .passed)
  | some slot => cfg.recording slot keycode record s

end Config

end QmkFirmware.DynamicMacro
