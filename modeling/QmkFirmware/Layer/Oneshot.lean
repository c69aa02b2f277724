import QmkFirmware.Lib.Run
import QmkFirmware.Layer.State

/-!
# The one-shot layer

`oneshot_layer_data` of `action_util.c` packs a layer and three flags into one
signed byte, `LLLL LSSS`. The events are the calls of its functions, and the
presses and releases of `process_action` that call them.
-/

namespace QmkFirmware.Layer

/-- `oneshot_fullfillment_t` -/
inductive OneshotFullfillment where
  | pressed | otherKeyPressed | start | toggled
  deriving DecidableEq, Repr

/-- `ONESHOT_PRESSED` and so on -/
def OneshotFullfillment.bits : OneshotFullfillment → Nat
  | pressed => 0b01
  | otherKeyPressed => 0b10
  | start => 0b11
  | toggled => 0b100

/-- The build: the bits of `layer_state_t`, `keymap_config.oneshot_enable` and
`ONESHOT_TAP_TOGGLE`, 0 where it is not defined. -/
structure OneshotConfig where
  maxLayer : Nat
  oneshotEnable : Bool
  oneshotTapToggle : Nat

/-- `layer_state` and `oneshot_layer_data`. The last field is not in the code: the
layer of the last `set_oneshot_layer` that stored one. -/
structure Oneshot (maxLayer : Nat) where
  layerState : LayerState maxLayer
  oneshotLayerData : BitVec 8
  layerSet : Nat

namespace Oneshot

variable {maxLayer : Nat}

/-- No one-shot layer is active. -/
def idle (layerState : LayerState maxLayer) : Oneshot maxLayer := ⟨layerState, 0, 0⟩

/-- `get_oneshot_layer`, an arithmetic shift -/
def getOneshotLayer (s : Oneshot maxLayer) : Nat := (s.oneshotLayerData.sshiftRight 3).toNat

/-- `get_oneshot_layer_state` -/
def getOneshotLayerState (s : Oneshot maxLayer) : BitVec 8 := s.oneshotLayerData &&& 0b111#8

/-- `is_oneshot_layer_active` -/
def isOneshotLayerActive (s : Oneshot maxLayer) : Bool := s.getOneshotLayerState != 0

/-- `reset_oneshot_layer` -/
def resetOneshotLayer (s : Oneshot maxLayer) : Oneshot maxLayer := { s with oneshotLayerData := 0 }

/-- `layer_on` -/
def on (s : Oneshot maxLayer) (layer : Nat) : Oneshot maxLayer :=
  { s with layerState := layerOn s.layerState layer }

/-- `layer_off` -/
def off (s : Oneshot maxLayer) (layer : Nat) : Oneshot maxLayer :=
  { s with layerState := layerOff s.layerState layer }

/-- What a key's own action does to the layers. -/
def own (s : Oneshot maxLayer) (action : LayerState maxLayer → LayerState maxLayer) : Oneshot maxLayer :=
  { s with layerState := action s.layerState }

end Oneshot

/-- An event. The layer operations of another key's own action, on its press and on
its release, are arbitrary; `clears` is the condition of `process_action` that the
key is no modifier, and `swallowed` is a press that `process_record_quantum` keeps
for itself. -/
inductive OneshotEvent (maxLayer : Nat) where
  | set (layer : Nat) (state : OneshotFullfillment)
  | clear (state : OneshotFullfillment)
  | reset
  | timeout
  | oneshotKey (layer : Nat) (pressed : Bool) (tapCount : Nat)
  | otherKey (pressed clears : Bool) (press release : LayerState maxLayer → LayerState maxLayer)
  | swallowed

section Code

variable (c : OneshotConfig)

open Oneshot

/-- `set_oneshot_layer` -/
def setOneshotLayer (s : Oneshot c.maxLayer) (layer : Nat) (state : OneshotFullfillment) :
    Oneshot c.maxLayer :=
  if c.oneshotEnable then
    { s with oneshotLayerData := BitVec.ofNat 8 (layer <<< 3 ||| state.bits), layerSet := layer }.on layer
  else s.on layer

/-- `clear_oneshot_layer_state`, which compares an unsigned copy with the signed byte -/
def clearOneshotLayerState (s : Oneshot c.maxLayer) (state : OneshotFullfillment) : Oneshot c.maxLayer :=
  let startState := s.oneshotLayerData.toNat
  let s := { s with oneshotLayerData := s.oneshotLayerData &&& ~~~(BitVec.ofNat 8 state.bits) }
  if (s.getOneshotLayerState = 0 ∧ (startState : Int) ≠ s.oneshotLayerData.toInt) ∧ c.oneshotEnable = true then
    (s.off s.getOneshotLayer).resetOneshotLayer
  else s

/-- The beginning of `process_action`: a press clears the one-shot layer unless it is
that of a modifier. -/
def beforeAction (s : Oneshot c.maxLayer) (pressed clears : Bool) : Oneshot c.maxLayer :=
  if s.isOneshotLayerActive ∧ pressed ∧ clears ∧ c.oneshotEnable then
    clearOneshotLayerState c s .otherKeyPressed
  else s

/-- `do_release_oneshot` -/
def doReleaseOneshot (s : Oneshot c.maxLayer) (pressed clears : Bool) : Bool :=
  if s.isOneshotLayerActive ∧ pressed ∧ clears ∧ c.oneshotEnable then
    !(clearOneshotLayerState c s .otherKeyPressed).isOneshotLayerActive
  else false

/-- `case OP_ONESHOT` of `process_action` -/
def oneshotAction (s : Oneshot c.maxLayer) (layer : Nat) (pressed : Bool) (tapCount : Nat) :
    Oneshot c.maxLayer :=
  if c.oneshotEnable = false then if pressed then s.on layer else s.off layer
  else if 1 < c.oneshotTapToggle then
    if pressed then
      if s.getOneshotLayerState = BitVec.ofNat 8 OneshotFullfillment.toggled.bits then
        s.resetOneshotLayer.off layer
      else if tapCount < c.oneshotTapToggle then setOneshotLayer c (s.on layer) layer .start
      else s
    else if c.oneshotTapToggle ≤ tapCount then setOneshotLayer c s.resetOneshotLayer layer .toggled
    else clearOneshotLayerState c s .pressed
  else if pressed then setOneshotLayer c (s.on layer) layer .start
  else if 1 < tapCount then clearOneshotLayerState c (clearOneshotLayerState c s .pressed) .otherKeyPressed
  else clearOneshotLayerState c s .pressed

/-- The end of `process_action`: the key is released before the layer is left. -/
def releaseOneshot (s : Oneshot c.maxLayer) (release : LayerState c.maxLayer → LayerState c.maxLayer) :
    Oneshot c.maxLayer :=
  let s := (s.on s.getOneshotLayer).own release
  s.off s.getOneshotLayer

/-- One event. A one-shot key that is pressed is held, so its own press is never
released at the end. -/
def oneshotStep (s : Oneshot c.maxLayer) : OneshotEvent c.maxLayer → Oneshot c.maxLayer
  | .set layer state => setOneshotLayer c s layer state
  | .clear state => clearOneshotLayerState c s state
  | .reset => s.resetOneshotLayer
  | .timeout =>
    if c.oneshotEnable = true ∧ s.getOneshotLayerState &&& BitVec.ofNat 8 OneshotFullfillment.toggled.bits = 0 then
      clearOneshotLayerState c s .otherKeyPressed
    else s
  | .oneshotKey layer pressed tapCount =>
    oneshotAction c (beforeAction c s pressed true) layer pressed tapCount
  | .otherKey pressed clears press release =>
    let acted := (beforeAction c s pressed clears).own (if pressed then press else release)
    if doReleaseOneshot c s pressed clears ∧ acted.getOneshotLayerState &&& 0b01#8 = 0 then
      releaseOneshot c acted release
    else acted
  | .swallowed =>
    if s.isOneshotLayerActive ∧ c.oneshotEnable then clearOneshotLayerState c s .otherKeyPressed else s

end Code

/-! ## The packed byte -/

/-- The byte that `set_oneshot_layer` stores. -/
def pack (layer flags : Nat) : BitVec 8 := BitVec.ofNat 8 (layer <<< 3 ||| flags)

theorem pack_layer (layer : Fin 16) (flags : Fin 8) : ((pack layer flags).sshiftRight 3).toNat = layer := by
  revert layer flags
  decide

theorem pack_state (layer : Fin 16) (flags : Fin 8) : pack layer flags &&& 0b111#8 = BitVec.ofNat 8 flags := by
  revert layer flags
  decide

/-- The byte of one of the first 16 layers is not negative. -/
theorem pack_nonneg (layer : Fin 16) (flags : Fin 8) : (pack layer flags).toInt = (pack layer flags).toNat := by
  revert layer flags
  decide

theorem pack_clear (layer : Fin 16) (flags : Fin 8) (state : OneshotFullfillment) :
    ∃ left : Fin 8, pack layer flags &&& ~~~(BitVec.ofNat 8 state.bits) = pack layer left := by
  revert layer flags
  cases state <;> decide

/-- No flag is left if and only if the state reads as zero. -/
theorem pack_state_zero (layer : Fin 16) (flags : Fin 8) : pack layer flags &&& 0b111#8 = 0 ↔ flags = 0 := by
  rw [pack_state]
  revert flags
  decide

/-- An active one-shot layer is stored unharmed and is on. -/
def Oneshot.Active (c : OneshotConfig) (s : Oneshot c.maxLayer) : Prop :=
  c.oneshotEnable = true ∧ isOn s.layerState s.layerSet = true ∧
    ∃ (layer : Fin 16) (flags : Fin 8), s.layerSet = layer ∧ flags ≠ 0 ∧ s.oneshotLayerData = pack layer flags

/-- What every event keeps. -/
def Oneshot.Sound (c : OneshotConfig) (s : Oneshot c.maxLayer) : Prop :=
  s.oneshotLayerData = 0 ∨ s.Active c

section Steps

variable {c : OneshotConfig} {s t : Oneshot c.maxLayer}

open Oneshot

theorem Oneshot.Active.active (h : s.Active c) : s.isOneshotLayerActive = true := by
  obtain ⟨-, -, layer, flags, -, ne, data⟩ := h
  rw [isOneshotLayerActive, getOneshotLayerState, data, bne_iff_ne]
  exact fun zero => ne ((pack_state_zero layer flags).1 zero)

theorem Oneshot.Active.layer (h : s.Active c) : s.getOneshotLayer = s.layerSet := by
  obtain ⟨-, -, layer, flags, set, -, data⟩ := h
  rw [getOneshotLayer, data, pack_layer, set]

theorem inactive_of_zero (h : s.oneshotLayerData = 0) : s.isOneshotLayerActive = false := by
  simp [isOneshotLayerActive, getOneshotLayerState, h]

theorem Oneshot.Sound.active (h : s.Sound c) (active : s.isOneshotLayerActive = true) : s.Active c := by
  rcases h with zero | h
  · rw [inactive_of_zero zero] at active
    cases active
  · exact h

theorem Oneshot.Sound.zero (h : s.Sound c) (inactive : s.isOneshotLayerActive = false) :
    s.oneshotLayerData = 0 := by
  rcases h with zero | h
  · exact zero
  · rw [h.active] at inactive
    cases inactive

/-- The one-shot layer `s` is left: its layer, and no other one, is turned off. -/
def Oneshot.left (s : Oneshot c.maxLayer) : Oneshot c.maxLayer :=
  { s with layerState := layerOff s.layerState s.layerSet, oneshotLayerData := 0 }

/-- What clearing flags does: nothing, or it leaves some flags, or it ends the one-shot. -/
inductive Cleared (c : OneshotConfig) (s : Oneshot c.maxLayer) : Oneshot c.maxLayer → Prop where
  | same : Cleared c s s
  | left (active : s.Active c) : Cleared c s s.left
  | still {t : Oneshot c.maxLayer} (before : s.Active c) (active : t.Active c)
      (layers : t.layerState = s.layerState) (layer : t.layerSet = s.layerSet) : Cleared c s t

theorem Cleared.sound (h : Cleared c s t) (sound : s.Sound c) : t.Sound c := by
  cases h with
  | same => exact sound
  | left => exact Or.inl rfl
  | still before active => exact Or.inr active

/-- Where the one-shot ends its layer is turned off. -/
theorem Cleared.ended (h : Cleared c s t) (before : s.isOneshotLayerActive = true)
    (after : t.isOneshotLayerActive = false) : t = s.left := by
  cases h with
  | same => rw [before] at after; cases after
  | left => rfl
  | still _ active => rw [active.active] at after; cases after

theorem Cleared.before (h : Cleared c s t) (after : t.isOneshotLayerActive = true) :
    s.isOneshotLayerActive = true := by
  cases h with
  | same => exact after
  | left active => exact active.active
  | still active => exact active.active

theorem Cleared.kept (h : Cleared c s t) (after : t.isOneshotLayerActive = true) :
    t.layerState = s.layerState ∧ t.layerSet = s.layerSet := by
  cases h with
  | same => exact ⟨rfl, rfl⟩
  | left => rw [inactive_of_zero rfl] at after; cases after
  | still _ _ layers layer => exact ⟨layers, layer⟩

theorem clearOneshotLayerState_cleared (h : s.Sound c) (state : OneshotFullfillment) :
    Cleared c s (clearOneshotLayerState c s state) := by
  rcases h with zero | h
  · have same : s.oneshotLayerData &&& ~~~(BitVec.ofNat 8 state.bits) = s.oneshotLayerData := by
      rw [zero]
      exact BitVec.zero_and
    rw [clearOneshotLayerState]
    have equal : ((s.oneshotLayerData.toNat : Nat) : Int) = s.oneshotLayerData.toInt := by
      rw [zero]
      rfl
    simp only [same, equal, ne_eq, not_true, and_false, false_and, if_false]
    exact .same
  · have active := h
    obtain ⟨enabled, on, layer, flags, set, ne, data⟩ := h
    obtain ⟨left, cleared⟩ := pack_clear layer flags state
    rw [clearOneshotLayerState]
    simp only [data, cleared, getOneshotLayerState, enabled, and_true]
    by_cases zero : left = 0
    · have changed : ((pack layer flags).toNat : Int) ≠ (pack layer left).toInt := by
        intro e
        rw [pack_nonneg, Nat.cast_inj] at e
        have := (pack_state_zero layer left).2 zero
        rw [← BitVec.eq_of_toNat_eq e] at this
        exact ne ((pack_state_zero layer flags).1 this)
      rw [if_pos ⟨(pack_state_zero layer left).2 zero, changed⟩]
      have back : ((pack layer left).sshiftRight 3).toNat = s.layerSet := by rw [pack_layer, set]
      simp only [resetOneshotLayer, off, getOneshotLayer, back]
      exact .left active
    · rw [if_neg fun e => zero ((pack_state_zero layer left).1 e.1)]
      exact .still active ⟨enabled, on, layer, left, set, zero, rfl⟩ rfl rfl

/-- Clearing flags clears them. -/
theorem clearOneshotLayerState_state (state : OneshotFullfillment) :
    (clearOneshotLayerState c s state).getOneshotLayerState =
      s.getOneshotLayerState &&& ~~~(BitVec.ofNat 8 state.bits) := by
  have masked : (s.oneshotLayerData &&& ~~~(BitVec.ofNat 8 state.bits)) &&& 0b111#8 =
      s.getOneshotLayerState &&& ~~~(BitVec.ofNat 8 state.bits) := by
    rw [getOneshotLayerState, BitVec.and_assoc, BitVec.and_assoc, BitVec.and_comm (0b111#8)]
  unfold clearOneshotLayerState
  dsimp only
  split_ifs with ended
  · have none : (0#8 &&& 0b111#8) = 0 := by decide
    rw [← masked]
    exact none.trans ended.1.1.symm
  · exact masked

theorem beforeAction_cleared (h : s.Sound c) (pressed clears : Bool) :
    Cleared c s (beforeAction c s pressed clears) := by
  rw [beforeAction]
  split_ifs
  · exact clearOneshotLayerState_cleared h _
  · exact .same

theorem setOneshotLayer_sound (h : s.Sound c) {layer : Nat} (below : layer < c.maxLayer)
    (small : c.oneshotEnable = true → layer < 16) (state : OneshotFullfillment) :
    (setOneshotLayer c s layer state).Sound c ∧
      (c.oneshotEnable = true → (setOneshotLayer c s layer state).Active c) := by
  rw [setOneshotLayer]
  by_cases enabled : c.oneshotEnable = true
  · rw [if_pos enabled]
    have active : ({ s with
        oneshotLayerData := BitVec.ofNat 8 (layer <<< 3 ||| state.bits), layerSet := layer }.on layer).Active c := by
      obtain ⟨flags, bits, ne⟩ : ∃ flags : Fin 8, state.bits = flags ∧ flags ≠ 0 := by
        cases state
        · exact ⟨1, rfl, by decide⟩
        · exact ⟨2, rfl, by decide⟩
        · exact ⟨3, rfl, by decide⟩
        · exact ⟨4, rfl, by decide⟩
      exact ⟨enabled, isOn_layerOn_self below, ⟨layer, small enabled⟩, flags, rfl, ne, by rw [bits]; rfl⟩
    exact ⟨Or.inr active, fun _ => active⟩
  · rw [if_neg enabled]
    rcases h with zero | active
    · exact ⟨Or.inl zero, fun e => absurd e enabled⟩
    · exact absurd active.1 enabled

/-! ## The condition and what it gives -/

/-- The flags that `process_action` leaves before it looks at the action. -/
def Oneshot.flagsLeft (s : Oneshot c.maxLayer) (pressed clears : Bool) : BitVec 8 :=
  if pressed ∧ clears then s.getOneshotLayerState &&& ~~~(BitVec.ofNat 8 OneshotFullfillment.otherKeyPressed.bits)
  else s.getOneshotLayerState

/-- Where a press ends the one-shot, its key is released between a `layer_on` and a `layer_off` of layer 0. The release leaves that
layer off, and does to the other layers what it does without it. -/
structure ApartFromZero {maxLayer : Nat} (release : LayerState maxLayer → LayerState maxLayer) (left : LayerState maxLayer) : Prop where
  off : isOn (release left) 0 = false
  others : ∀ layer ≠ 0, isOn (release (layerOn left 0)) layer = isOn (release left) layer

/-- Then `layer_on` and `layer_off` of layer 0 come to nothing. -/
theorem ApartFromZero.unseen {maxLayer : Nat} {release : LayerState maxLayer → LayerState maxLayer} {left : LayerState maxLayer}
    (apart : ApartFromZero release left) : layerOff (release (layerOn left 0)) 0 = release left := by
  refine ext fun layer => ?_
  by_cases zero : layer = 0
  · rw [zero, isOn_layerOff_self, apart.off]
  · rw [isOn_layerOff_of_ne zero, apart.others layer zero]

variable (c) in
/-- The layer set is one of the first 16. The one-shot is not reset while it is active,
a toggled one is left through its own key, what another key's action does to the
layers leaves the layer of an active one-shot on, and where its press ends the one-shot
layer 0 is off and of no matter to its release. -/
def OneshotStepOk (s : Oneshot c.maxLayer) : OneshotEvent c.maxLayer → Prop
  | .set layer _ => layer < c.maxLayer ∧ (c.oneshotEnable = true → layer < 16)
  | .reset => s.isOneshotLayerActive = false
  | .oneshotKey layer pressed _ =>
    layer < c.maxLayer ∧ (c.oneshotEnable = true → layer < 16) ∧
      (pressed = true → 1 < c.oneshotTapToggle →
        s.flagsLeft true true = BitVec.ofNat 8 OneshotFullfillment.toggled.bits → layer = s.layerSet)
  | .otherKey pressed clears press release =>
    s.isOneshotLayerActive = true →
      (s.flagsLeft pressed clears ≠ 0 →
        isOn ((if pressed then press else release) s.layerState) s.layerSet = true) ∧
      (s.flagsLeft pressed clears = 0 →
        ApartFromZero release (press (layerOff s.layerState s.layerSet)))
  | _ => True

/-- What the event makes of the layers by itself, where it ends the one-shot. -/
def ownEffect : OneshotEvent c.maxLayer → LayerState c.maxLayer → LayerState c.maxLayer
  | .otherKey _ _ press release => release ∘ press
  | _ => id

variable (c) in
/-- When the flags become clear, the layer set and no other one is turned off. -/
def TurnsOff (s : Oneshot c.maxLayer) (e : OneshotEvent c.maxLayer) : Prop :=
  s.isOneshotLayerActive = true → (oneshotStep c s e).isOneshotLayerActive = false →
    (oneshotStep c s e).layerState = ownEffect e (layerOff s.layerState s.layerSet)

/-- An active one-shot has the layer that was set, and that layer is on. -/
def Oneshot.Coherent (s : Oneshot c.maxLayer) : Prop :=
  s.isOneshotLayerActive = true →
    s.getOneshotLayer = s.layerSet ∧ isOn s.layerState s.layerSet = true

theorem Oneshot.Sound.coherent (h : s.Sound c) : s.Coherent :=
  fun active => ⟨(h.active active).layer, (h.active active).2.1⟩

/-- What a piece of code does that only works on the one-shot: where the one-shot ends
the layer set is turned off, and without one the layers stay. -/
structure Outcome (c : OneshotConfig) (s t : Oneshot c.maxLayer) : Prop where
  sound : t.Sound c
  ended : s.isOneshotLayerActive = true → t.isOneshotLayerActive = false →
    t.layerState = layerOff s.layerState s.layerSet
  idle : c.oneshotEnable = true → s.isOneshotLayerActive = false → t.isOneshotLayerActive = false →
    t.layerState = s.layerState

theorem Cleared.outcome (h : Cleared c s t) (sound : s.Sound c) : Outcome c s t where
  sound := h.sound sound
  ended before after := by
    rw [h.ended before after]
    rfl
  idle _ before _ := by
    cases h with
    | same => rfl
    | left active => rw [active.active] at before; cases before
    | still active => rw [active.active] at before; cases before

theorem Cleared.andThen {u : Oneshot c.maxLayer} (h : Cleared c s t) (next : Outcome c t u) : Outcome c s u where
  sound := next.sound
  ended before after := by
    cases h with
    | same => exact next.ended before after
    | left active => exact next.idle active.1 (inactive_of_zero rfl) after
    | still _ active layers layer =>
      rw [next.ended active.active after, layers, layer]
  idle enabled before after := by
    cases h with
    | same => exact next.idle enabled before after
    | left active => rw [active.active] at before; cases before
    | still active => rw [active.active] at before; cases before

theorem Outcome.of_active (h : t.Active c) : Outcome c s t where
  sound := Or.inr h
  ended _ after := by rw [h.active] at after; cases after
  idle _ _ after := by rw [h.active] at after; cases after

/-- The key of a one-shot layer. -/
theorem oneshotAction_outcome (h : s.Sound c) {layer : Nat} {pressed : Bool} (tapCount : Nat)
    (below : layer < c.maxLayer) (small : c.oneshotEnable = true → layer < 16)
    (own : pressed = true → 1 < c.oneshotTapToggle →
      s.getOneshotLayerState = BitVec.ofNat 8 OneshotFullfillment.toggled.bits → layer = s.layerSet) :
    Outcome c s (oneshotAction c s layer pressed tapCount) := by
  have set : ∀ (u : Oneshot c.maxLayer) state, u.Sound c → c.oneshotEnable = true →
      Outcome c s (setOneshotLayer c u layer state) := fun u state hu enabled =>
    Outcome.of_active ((setOneshotLayer_sound hu below small state).2 enabled)
  have kept : (s.on layer).Sound c := by
    rcases h with zero | ⟨enabled, on, rest⟩
    · exact Or.inl zero
    · exact Or.inr ⟨enabled, by simp only [Oneshot.on, isOn_layerOn, on, Bool.true_or], rest⟩
  have cleared := clearOneshotLayerState_cleared h .pressed
  rw [oneshotAction]
  by_cases disabled : c.oneshotEnable = false
  · have zero : s.oneshotLayerData = 0 := by
      rcases h with zero | active
      · exact zero
      · have enabled := active.1
        rw [disabled] at enabled
        cases enabled
    have inactive := inactive_of_zero zero
    rw [if_pos disabled]
    split_ifs
    · exact ⟨Or.inl zero, fun active => by simp [inactive] at active, fun e => by simp [disabled] at e⟩
    · exact ⟨Or.inl zero, fun active => by simp [inactive] at active, fun e => by simp [disabled] at e⟩
  have enabled : c.oneshotEnable = true := by simpa using disabled
  rw [if_neg disabled]
  split_ifs with toggles pressed toggled first last pressed many
  · -- a toggled layer is left
    have active : s.isOneshotLayerActive = true := by
      rw [isOneshotLayerActive, toggled]
      rfl
    refine ⟨Or.inl rfl, fun _ _ => ?_, fun _ inactive => ?_⟩
    · rw [own pressed toggles toggled]
      rfl
    · rw [active] at inactive
      cases inactive
  · exact set _ _ kept enabled
  · exact Cleared.same.outcome h
  · exact set _ _ (Or.inl rfl) enabled
  · exact cleared.outcome h
  · exact set _ _ kept enabled
  · exact cleared.andThen ((clearOneshotLayerState_cleared (cleared.sound h) .otherKeyPressed).outcome
      (cleared.sound h))
  · exact cleared.outcome h

/-- A press ends the one-shot only where it is released at the end. -/
theorem beforeAction_ends {pressed clears : Bool} (before : s.isOneshotLayerActive = true) :
    (beforeAction c s pressed clears).isOneshotLayerActive = false ↔ doReleaseOneshot c s pressed clears = true := by
  unfold beforeAction doReleaseOneshot
  split_ifs
  · simp
  · simp [before]

theorem beforeAction_state (h : s.Active c) (pressed clears : Bool) :
    (beforeAction c s pressed clears).getOneshotLayerState = s.flagsLeft pressed clears := by
  unfold beforeAction flagsLeft
  simp only [h.active, h.1, true_and, and_true]
  split_ifs
  · exact clearOneshotLayerState_state .otherKeyPressed
  · rfl

theorem beforeAction_idle {pressed clears : Bool} (before : s.isOneshotLayerActive = false) :
    beforeAction c s pressed clears = s ∧ doReleaseOneshot c s pressed clears = false := by
  unfold beforeAction doReleaseOneshot
  simp [before]

/-- Another key's own action leaves the byte alone. -/
theorem Oneshot.Active.own (h : s.Active c) {action : LayerState c.maxLayer → LayerState c.maxLayer}
    (on : isOn (action s.layerState) s.layerSet = true) : (s.own action).Active c :=
  ⟨h.1, on, h.2.2⟩

/-- With the byte cleared, the layer that is left at the end is layer 0. -/
theorem releaseOneshot_zero (zero : s.oneshotLayerData = 0) {release : LayerState c.maxLayer → LayerState c.maxLayer} :
    (releaseOneshot c s release).layerState = layerOff (release (layerOn s.layerState 0)) 0 := by
  have layer : s.getOneshotLayer = 0 := by
    rw [getOneshotLayer, zero]
    decide
  unfold releaseOneshot
  simp only [Oneshot.on, Oneshot.off, Oneshot.own, layer]
  rw [show ((⟨release (layerOn s.layerState 0), s.oneshotLayerData, s.layerSet⟩ : Oneshot c.maxLayer).getOneshotLayer) = 0 from layer]

/-- Another key, after the one-shot has been looked at. -/
theorem otherKey_step (h : s.Sound c) {pressed clears : Bool} {press release : LayerState c.maxLayer → LayerState c.maxLayer}
    (ok : OneshotStepOk c s (.otherKey pressed clears press release)) :
    (oneshotStep c s (.otherKey pressed clears press release)).Sound c ∧
      TurnsOff c s (.otherKey pressed clears press release) := by
  have cleared := beforeAction_cleared h pressed clears
  cases released : doReleaseOneshot c s pressed clears with
  | false =>
    have step : oneshotStep c s (.otherKey pressed clears press release) =
        (beforeAction c s pressed clears).own (if pressed then press else release) := by
      unfold oneshotStep
      simp [released]
    rw [TurnsOff, step]
    cases before : s.isOneshotLayerActive with
    | false =>
      rw [(beforeAction_idle before).1]
      exact ⟨Or.inl (h.zero before), fun active => by cases active⟩
    | true =>
      have after : (beforeAction c s pressed clears).isOneshotLayerActive = true := by
        rw [← Bool.not_eq_false, beforeAction_ends before, released]
        simp
      have some : s.flagsLeft pressed clears ≠ 0 := by
        rw [← beforeAction_state (h.active before)]
        exact bne_iff_ne.1 after
      have active : ((beforeAction c s pressed clears).own (if pressed then press else release)).Active c := by
        refine ((cleared.sound h).active after).own ?_
        rw [(cleared.kept after).1, (cleared.kept after).2]
        exact (ok before).1 some
      exact ⟨Or.inr active, fun _ inactive => by rw [active.active] at inactive; cases inactive⟩
  | true =>
    have before : s.isOneshotLayerActive = true := by
      by_contra idle
      rw [(beforeAction_idle (by simpa using idle)).2] at released
      cases released
    have after := (beforeAction_ends before).2 released
    have ended := cleared.ended before after
    have isPressed : pressed = true := by
      unfold doReleaseOneshot at released
      split_ifs at released with cond
      exact cond.2.1
    subst isPressed
    have step : oneshotStep c s (.otherKey true clears press release) = releaseOneshot c (s.left.own press) release := by
      show (if doReleaseOneshot c s true clears = true ∧ _ then _ else _) = _
      rw [ended, if_pos ⟨released, by show (0#8 &&& 0b111#8) &&& 0b01#8 = 0; decide⟩]
      rfl
    have none : s.flagsLeft true clears = 0 := by
      rw [← beforeAction_state (h.active before)]
      simpa [isOneshotLayerActive] using after
    rw [TurnsOff, step]
    refine ⟨Or.inl rfl, fun _ _ => ?_⟩
    rw [releaseOneshot_zero rfl]
    exact ((ok before).2 none).unseen

/-- One event keeps the one-shot sound. -/
theorem oneshotStep_sound (h : s.Sound c) {e : OneshotEvent c.maxLayer} (ok : OneshotStepOk c s e) :
    (oneshotStep c s e).Sound c ∧ TurnsOff c s e := by
  have of_outcome : ∀ {t : Oneshot c.maxLayer}, oneshotStep c s e = t → ownEffect e = id → Outcome c s t →
      (oneshotStep c s e).Sound c ∧ TurnsOff c s e := by
    intro t ht own outcome
    rw [TurnsOff, own, ht]
    exact ⟨outcome.sound, outcome.ended⟩
  cases e with
  | set layer state =>
    obtain ⟨sound, active⟩ := setOneshotLayer_sound h ok.1 ok.2 state
    by_cases enabled : c.oneshotEnable = true
    · exact of_outcome rfl rfl (.of_active (active enabled))
    · refine ⟨sound, fun before => ?_⟩
      exact absurd (h.active before).1 enabled
  | clear state => exact of_outcome rfl rfl ((clearOneshotLayerState_cleared h state).outcome h)
  | reset =>
    refine ⟨Or.inl rfl, fun active => ?_⟩
    rw [OneshotStepOk, active] at ok
    cases ok
  | timeout =>
    apply of_outcome rfl rfl
    show Outcome c s (if _ then _ else _)
    split_ifs
    · exact (clearOneshotLayerState_cleared h _).outcome h
    · exact Cleared.same.outcome h
  | oneshotKey layer pressed tapCount =>
    have cleared := beforeAction_cleared h pressed true
    refine of_outcome rfl rfl (cleared.andThen (oneshotAction_outcome (cleared.sound h) tapCount ok.1 ok.2.1 ?_))
    intro isPressed toggles toggled
    have after : (beforeAction c s pressed true).isOneshotLayerActive = true := by
      rw [isOneshotLayerActive, toggled]
      rfl
    rw [(cleared.kept after).2]
    refine ok.2.2 isPressed toggles ?_
    subst isPressed
    rw [← beforeAction_state (h.active (cleared.before after)) true true]
    exact toggled
  | otherKey pressed clears press release => exact otherKey_step h ok
  | swallowed =>
    apply of_outcome rfl rfl
    show Outcome c s (if _ then _ else _)
    split_ifs
    · exact (clearOneshotLayerState_cleared h _).outcome h
    · exact Cleared.same.outcome h

/-! ## Every run -/

/-- In every run that meets the condition an active one-shot has its layer, and that
layer is turned off where the one-shot ends. -/
theorem oneshot_coherent (c : OneshotConfig) (layerState : LayerState c.maxLayer) (events : List (OneshotEvent c.maxLayer))
    (ok : Lib.Along (oneshotStep c) (OneshotStepOk c) (Oneshot.idle layerState) events) :
    (events.foldl (oneshotStep c) (Oneshot.idle layerState)).Coherent ∧
      Lib.Along (oneshotStep c) (TurnsOff c) (Oneshot.idle layerState) events := by
  have start : (Oneshot.idle layerState).Sound c := Or.inl rfl
  constructor
  · exact (Lib.Along.invariant (Oneshot.Sound c) (fun s e hs he => (oneshotStep_sound hs he).1) start ok).coherent
  · exact Lib.Along.each (Oneshot.Sound c) (fun s e hs he => oneshotStep_sound hs he) start ok

/-- A tap of a one-shot layer and then of a key. -/
theorem oneshot_coherent_tap :
    let events : List (OneshotEvent 32) := [.oneshotKey 3 true 0, .oneshotKey 3 false 1, .otherKey true true id id]
    ((events.foldl (oneshotStep ⟨32, true, 0⟩) (Oneshot.idle 0)).Coherent ∧
      Lib.Along (oneshotStep ⟨32, true, 0⟩) (TurnsOff ⟨32, true, 0⟩) (Oneshot.idle 0) events) ∧
      (events.foldl (oneshotStep ⟨32, true, 0⟩) (Oneshot.idle 0)).layerState = 0 :=
  ⟨oneshot_coherent ⟨32, true, 0⟩ 0 _ ⟨by simp +decide [OneshotStepOk], by simp +decide [OneshotStepOk], by
    exact fun _ => ⟨by decide, fun _ => ⟨by decide, fun _ ne => isOn_layerOn_of_ne ne⟩⟩, trivial⟩, by decide⟩

/-- Layer 16 is stored in the sign bit, and is read back as 240. -/
theorem oneshot_sixteen :
    ¬ ∀ (c : OneshotConfig) (layer : Nat) (state : OneshotFullfillment) (layerState : LayerState c.maxLayer),
      layer < c.maxLayer → (oneshotStep c (Oneshot.idle layerState) (.set layer state)).Coherent := by
  intro h
  have := h ⟨32, true, 0⟩ 16 .start 1 (by decide) (by decide)
  exact absurd this.1 (by decide)

end Steps

end QmkFirmware.Layer
