import QmkFirmware.Autocorrect.Generator
import QmkFirmware.Lib.Audited

/-!
# Autocorrect

`process_autocorrect.c`: the keys that are typed go to a buffer, and the table of the
generator is walked with the buffer from its last key on. Tapping is compiled in and the
swapping of hands is not. The accesses are those to the table.
-/

namespace QmkFirmware.Autocorrect
open Lib Audited

/-- The part of a `keyrecord_t` that is looked at -/
structure Record where
  pressed : Bool
  tapCount : Nat

/-- `autocorrect_enable` of the configuration, and the first `typo_buffer_size` keys of `typo_buffer` -/
structure State where
  enable : Bool
  typoBuffer : List UInt8
  deriving DecidableEq

/-- `MOD_MASK_SHIFT` -/
def modMaskShift : UInt8 := 0x22

/-- `case first ... last` -/
def within (first last keycode : UInt16) : Bool := first ≤ keycode && keycode ≤ last

/-! ## The keys -/

/-- What `process_autocorrect_user` does: it stops, with the buffer reset or not, or goes on with a keycode and the
modifiers. -/
inductive UserResult where
  | stop (reset : Bool)
  | allow (keycode : UInt16) (mods : UInt8)
  deriving DecidableEq

/-- The end of `process_autocorrect_user` -/
def modsCheck (keycode : UInt16) (mods : UInt8) : UserResult :=
  if mods &&& ~~~modMaskShift ≠ 0 then .stop true else .allow keycode mods

/-- `process_autocorrect_user` -/
def processAutocorrectUser (keycode : UInt16) (record : Record) (mods : UInt8) : UserResult :=
  -- KC_LSFT, KC_RSFT, KC_CAPS
  if keycode = 0xE1 ∨ keycode = 0xE5 ∨ keycode = 0x39 then .stop false
  -- QK_LAYER_MOD, QK_TO, QK_MOMENTARY, QK_DEF_LAYER, QK_TOGGLE_LAYER, QK_ONE_SHOT_LAYER, QK_ONE_SHOT_MOD, QK_LAYER_TAP_TOGGLE
  else if within 0x5000 0x52DF keycode then .stop false
  -- QK_LSFT
  else if within 0x200 0x2FF keycode then .allow (keycode &&& 0xFF) (mods ||| 0x02)
  -- QK_RSFT
  else if within 0x1200 0x12FF keycode then .allow (keycode &&& 0xFF) (mods ||| 0x12)
  -- QK_MOD_TAP, QK_LAYER_TAP
  else if within 0x2000 0x4FFF keycode then
    if record.tapCount = 0 then .stop false else modsCheck (keycode &&& 0xFF) mods
  -- QK_SWAP_HANDS
  else if within 0x5600 0x56FF keycode then .stop false
  else modsCheck keycode mods

/-- The switch of `process_autocorrect`: the key that is appended, or nothing, and the buffer -/
def trackKey (keycode : UInt16) (mods : UInt8) (buffer : List UInt8) : Option UInt8 × List UInt8 :=
  -- KC_A ... KC_Z
  if within 0x04 0x1D keycode then (some keycode.toUInt8, buffer)
  -- KC_1 ... KC_0, KC_TAB ... KC_SEMICOLON, KC_GRAVE ... KC_SLASH
  else if within 0x1E 0x27 keycode || within 0x2B 0x33 keycode || within 0x35 0x38 keycode then (some kcSpc, buffer)
  -- KC_ENTER
  else if keycode = 0x28 then (some kcSpc, [])
  -- KC_BSPC
  else if keycode = 0x2A then (none, buffer.dropLast)
  -- KC_QUOTE
  else if keycode = 0x34 then (some (if mods &&& modMaskShift ≠ 0 then kcSpc else kcQuot), buffer)
  else (none, [])

/-- The oldest key makes room, and a key is appended. -/
def appendKey (maxLength : Nat) (code : UInt8) (buffer : List UInt8) : List UInt8 :=
  (if maxLength ≤ buffer.length then (buffer.drop 1).take (maxLength - 1) else buffer) ++ [code]

/-! ## The walk -/

/-- How the walk ends: `endless` is a loop over branches that has not come to an end in as many turns as the table has
bytes. -/
inductive Outcome where
  | endless
  | noMatch
  | reached (state : Nat)
  deriving DecidableEq, Repr

section Walk

variable (data : List UInt8)

/-- `pgm_read_byte(autocorrect_data + i)` -/
def readData (i : Nat) : Audited Nat UInt8 := note i ((data[i]?).getD 0)

/-- The loop over the branches of a node -/
def findBranch (key : UInt8) : Nat → Nat → UInt8 → Audited Nat Outcome
  | 0, _, _ => pure .endless
  | fuel + 1, state, code =>
    if code = key then pure (.reached state)
    else if code = 0 then pure .noMatch
    else do
      let state := (state + 3) % 65536
      let code ← readData data state
      findBranch key fuel state code

/-- The node at `state` with `code`, for a key: the state of the child -/
def turn (key : UInt8) (state : Nat) (code : UInt8) : Audited Nat Outcome :=
  if code &&& 64 ≠ 0 then do
    match ← findBranch data key (data.length + 1) state (code &&& 63) with
    | .reached state => do
      let low ← readData data (state + 1)
      let high ← readData data (state + 2)
      pure (.reached (low.toNat + high.toNat * 256))
    | outcome => pure outcome
  else if code ≠ key then pure .noMatch
  else do
    let state := (state + 1) % 65536
    let code ← readData data state
    pure (.reached (if code = 0 then (state + 1) % 65536 else state))

/-- The loop over the buffer from its last key on -/
def walk : List UInt8 → Nat → UInt8 → Audited Nat Outcome
  | [], _, _ => pure .noMatch
  | key :: keys, state, code => do
    match ← turn data key state code with
    | .reached state =>
      if data.length ≤ state then pure .noMatch
      else do
        let code ← readData data state
        if code &&& 128 ≠ 0 then pure (.reached state) else walk keys state code
    | outcome => pure outcome

end Walk

/-- The search of the buffer for a typo -/
def findTypo (d : AutocorrectData) (buffer : List UInt8) : Audited Nat Outcome :=
  if buffer.length < d.minLength then pure .noMatch
  else do
    let code ← readData d.data 0
    walk d.data buffer.reverse 0 code

/-! ## `process_autocorrect` -/

/-- A correction: the backspaces, and where the string is in the table -/
structure Applied where
  backspaces : UInt8
  str : Nat
  deriving DecidableEq, Repr

/-- What `process_autocorrect` returns and changes, and what it sends -/
structure Result where
  continues : Bool
  state : State
  applied : Option Applied
  deriving DecidableEq

/-- From the appended key on -/
def applyTypo (d : AutocorrectData) (code : UInt8) (s : State) : Result :=
  match (findTypo d s.typoBuffer).value with
  | .reached state =>
    let applied : Applied := ⟨((d.data[state]?).getD 0) &&& 63, state + 1⟩
    if code = kcSpc then ⟨true, { s with typoBuffer := [kcSpc] }, some applied⟩
    else ⟨false, { s with typoBuffer := [] }, some applied⟩
  | _ => ⟨true, s, none⟩

/-- `process_autocorrect`, with the modifiers and the one-shot ones -/
def processAutocorrect (d : AutocorrectData) (keycode : UInt16) (record : Record) (mods : UInt8) (s : State) : Result :=
  if within 0x7C74 0x7C76 keycode && record.pressed then
    if keycode = 0x7C74 then ⟨false, { s with enable := true }, none⟩
    else if keycode = 0x7C75 then ⟨false, ⟨false, []⟩, none⟩
    else ⟨false, ⟨!s.enable, []⟩, none⟩
  else if !s.enable then ⟨true, { s with typoBuffer := [] }, none⟩
  else if !record.pressed then ⟨true, s, none⟩
  else match processAutocorrectUser keycode record mods with
    | .stop reset => ⟨true, if reset then { s with typoBuffer := [] } else s, none⟩
    | .allow keycode mods =>
      match trackKey keycode mods s.typoBuffer with
      | (none, buffer) => ⟨true, { s with typoBuffer := buffer }, none⟩
      | (some code, buffer) => applyTypo d code { s with typoBuffer := appendKey d.maxLength code buffer }

/-- The variables at the start -/
def State.initial (enable : Bool) : State := ⟨enable, [kcSpc]⟩

end QmkFirmware.Autocorrect
