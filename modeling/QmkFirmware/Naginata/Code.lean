import QmkFirmware.Layer.State
import QmkFirmware.Naginata.Table

/-!
# The input method of the keymap

The functions of the keymap `jisgeta` that an event goes through: the keys of the
input method gather in a buffer and a set until `naginata_type` looks them up, and
the modifier keys turn the layer of the input method off while one of them is held.
What normal processing does with an event that `process_record_user` lets through
is not part of it.
-/

namespace QmkFirmware.Naginata
open Layer

/-- `NGBUFFER` -/
def ngBuffer : Nat := 5

/-! The layers that `process_record_user` names -/

def qwerty : Nat := 0
def eucalyn : Nat := 8
def workman : Nat := 9
def naginata : Nat := 10
def lower : Nat := 11
def raise : Nat := 12
def adjust : Nat := 13

/-- The keys that `tap_code` sends to switch the input method of the host. -/
inductive HostKey where
  | lng1 | int4 | lng2 | int5
  deriving DecidableEq, Repr

/-- What the host receives. -/
inductive Output where
  | sendString (entry : Entry)
  | tapCode (key : HostKey)
  deriving DecidableEq, Repr

/-- The keycodes of the modifiers -/
inductive Modifier where
  | lctl | lsft | lalt | lgui | rctl | rsft | ralt | rgui
  deriving DecidableEq, Repr

/-- The keycodes that `process_record_user` tells apart -/
inductive Keycode where
  | swsgt | qwerty | eucalyn | workman | lng2 | lng1 | adjust | lower | raise
  | modifier (mod : Modifier)
  | ng (key : NgKey)
  | other
  deriving DecidableEq, Repr

/-- The variables of the keymap, the layers and what was sent. `ninputs` are the slots in use,
the first `ng_chrcount` ones; `overrun` says that a key was written past the last slot. What
this write changes is not modelled. -/
structure State where
  isNaginata : Bool
  naginataLayer : Nat
  nModifier : BitVec 8
  keycomb : BitVec 64
  isShingeta : Bool
  ninputs : List NgKey
  overrun : Bool
  layerState : LayerState 16
  defaultLayerState : LayerState 16
  sent : List Output

namespace State

/-- `ng_chrcount` -/
def ngChrcount (s : State) : Nat := s.ninputs.length

/-- The table in use -/
def table (s : State) : List Entry := if s.isShingeta then ngmap else ngmap2

def send (s : State) (out : List Output) : State := { s with sent := s.sent ++ out }

end State

/-- The keyboard after `matrix_init_user`, which calls `set_naginata(_NAGINATA)`. -/
def boot : State :=
  { isNaginata := false, naginataLayer := naginata, nModifier := 0, keycomb := 0, isShingeta := true,
    ninputs := [], overrun := false, layerState := 0, defaultLayerState := 1#16 <<< qwerty, sent := [] }

/-- `naginata_clear` -/
def naginataClear (s : State) : State := { s with ninputs := [] }

/-- `naginata_on` -/
def naginataOn (s : State) : State :=
  let s := naginataClear { s with isNaginata := true, keycomb := 0 }
  { s with layerState := layerOn s.layerState s.naginataLayer }.send [.tapCode .lng1, .tapCode .int4]

/-- `naginata_off` -/
def naginataOff (s : State) : State :=
  let s := naginataClear { s with isNaginata := false, keycomb := 0 }
  { s with layerState := layerOff s.layerState s.naginataLayer }.send [.tapCode .lng2, .tapCode .int5]

/-- The buffer `skey` for one key: a `uint32_t`, where a key set has 64 bits. -/
def skey (s : State) (key : NgKey) : BitVec 32 :=
  let skey := (ngKey key).setWidth 32
  if 0#64 < s.keycomb &&& ngKey .lsft then skey ||| (ngKey .lsft).setWidth 32 else skey

/-- The entry that is typed for one key of the buffer. -/
def typedFor (s : State) (key : NgKey) : Option Entry :=
  s.table.find? fun entry => (skey s key).setWidth 64 == entry.key

/-- `naginata_type` -/
def naginataType (s : State) : State :=
  match s.table.find? fun entry => s.keycomb == entry.key with
  | some entry => naginataClear (s.send [.sendString entry])
  | none => naginataClear (s.send ((s.ninputs.filterMap (typedFor s)).map .sendString))

/-- `naginata_mode` -/
def naginataMode (keycode : Keycode) (pressed : Bool) (s : State) : State :=
  if !s.isNaginata then s else
  match keycode with
  | .modifier _ =>
    if pressed then
      { s with nModifier := s.nModifier + 1, layerState := layerOff s.layerState s.naginataLayer }
    else
      let s := { s with nModifier := s.nModifier - 1 }
      if s.nModifier = 0 then { s with layerState := layerOn s.layerState s.naginataLayer } else s
  | _ => s

/-- A key is pressed: it goes to the buffer and to the set. -/
def gather (key : NgKey) (s : State) : State :=
  let s := if s.ngChrcount < ngBuffer then { s with ninputs := s.ninputs ++ [key] }
    else { s with overrun := true }
  { s with keycomb := s.keycomb ||| ngKey key }

/-- `process_naginata` -/
def processNaginata (keycode : Keycode) (pressed : Bool) (s : State) : Bool × State :=
  match keycode with
  | .ng key =>
    if pressed then
      let s := gather key s
      (false, if s.isShingeta ∧ 1 < s.ngChrcount then naginataType s else s)
    else
      let s := if 0 < s.ngChrcount then naginataType s else s
      (false, { s with keycomb := s.keycomb &&& ~~~(ngKey key) })
  | _ => (true, s)

/-- `update_tri_layer_state` -/
def updateTriLayerState (state : LayerState 16) (layer1 layer2 layer3 : Nat) : LayerState 16 :=
  let mask12 := (1#16 <<< layer1) ||| (1#16 <<< layer2)
  if state &&& mask12 = mask12 then layerOn state layer3 else layerOff state layer3

/-- A layer is on while its key is held. -/
def momentary (layer : Nat) (pressed : Bool) (s : State) : State :=
  { s with layerState := if pressed then layerOn s.layerState layer else layerOff s.layerState layer }

/-- `update_tri_layer` -/
def updateTriLayer (layer1 layer2 layer3 : Nat) (s : State) : State :=
  { s with layerState := updateTriLayerState s.layerState layer1 layer2 layer3 }

/-- `persistent_default_layer_set`, without the copy in the eeprom -/
def persistentDefaultLayerSet (defaultLayer : LayerState 16) (s : State) : State :=
  { s with defaultLayerState := defaultLayer }

/-- `process_record_user`: whether normal processing goes on, and the state. -/
def processRecordUser (keycode : Keycode) (pressed : Bool) (s : State) : Bool × State :=
  match keycode with
  | .swsgt => (false, if pressed then { s with isShingeta := !s.isShingeta } else s)
  | .qwerty => (false, if pressed then persistentDefaultLayerSet (1#16 <<< qwerty) s else s)
  | .eucalyn => (false, if pressed then persistentDefaultLayerSet (1#16 <<< eucalyn) s else s)
  | .workman => (false, if pressed then persistentDefaultLayerSet (1#16 <<< workman) s else s)
  | .lng2 => (false, if pressed then naginataOff s else s)
  | .lng1 => (false, if pressed then naginataOn s else s)
  | .adjust => (false, momentary adjust pressed s)
  | .lower => (false, updateTriLayer lower raise adjust (momentary lower pressed s))
  | .raise => (false, updateTriLayer lower raise adjust (momentary raise pressed s))
  | keycode =>
    if s.isNaginata then processNaginata keycode pressed (naginataMode keycode pressed s) else (true, s)

/-- The matrix of the keyboard -/
abbrev Position := Fin 6 × Fin 16

scoped instance neZero_rows : NeZero 6 := ⟨by decide⟩

scoped instance neZero_cols : NeZero 16 := ⟨by decide⟩

/-- An event, with the keycode of the key -/
structure Event where
  key : Position
  keycode : Keycode
  pressed : Bool
  deriving DecidableEq

/-- The state after an event -/
def record (s : State) (e : Event) : State := (processRecordUser e.keycode e.pressed s).2

end QmkFirmware.Naginata
