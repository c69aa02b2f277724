import Mathlib

/-!
# Layer states

`layer_state_t` and the operations of `action_layer.c` on it. The width is one of
8, 16 and 32 bits, and `MAX_LAYER` is the width; nothing here depends on it.
-/

namespace QmkFirmware.Layer

/-- `layer_state_t` with `maxLayer` bits -/
abbrev LayerState (maxLayer : Nat) := BitVec maxLayer

variable {maxLayer : Nat}

/-- `layer_on` -/
def layerOn (state : LayerState maxLayer) (layer : Nat) : LayerState maxLayer :=
  state ||| (BitVec.ofNat maxLayer 1 <<< layer)

/-- `layer_off` -/
def layerOff (state : LayerState maxLayer) (layer : Nat) : LayerState maxLayer :=
  state &&& ~~~(BitVec.ofNat maxLayer 1 <<< layer)

/-- Whether a layer is on. -/
def isOn (state : LayerState maxLayer) (layer : Nat) : Bool := state.getLsbD layer

theorem isOn_lt {state : LayerState maxLayer} {layer : Nat} (h : isOn state layer = true) : layer < maxLayer :=
  BitVec.lt_of_getLsbD h

theorem ext {s t : LayerState maxLayer} (h : ∀ layer, isOn s layer = isOn t layer) : s = t :=
  BitVec.eq_of_getLsbD_eq fun layer _ => h layer

theorem isOn_layerOn (state : LayerState maxLayer) (layer k : Nat) :
    isOn (layerOn state layer) k = (isOn state k || decide (k = layer ∧ k < maxLayer)) := by
  rw [isOn, layerOn, BitVec.getLsbD_or, ← BitVec.twoPow_eq, BitVec.getLsbD_twoPow, ← isOn]
  congr 1
  rw [Bool.eq_iff_iff]
  simp only [Bool.and_eq_true, decide_eq_true_eq]
  omega

theorem isOn_layerOff (state : LayerState maxLayer) (layer k : Nat) :
    isOn (layerOff state layer) k = (isOn state k && decide (k ≠ layer)) := by
  rw [isOn, layerOff, BitVec.getLsbD_and, BitVec.getLsbD_not, ← BitVec.twoPow_eq, BitVec.getLsbD_twoPow,
    ← isOn]
  by_cases on : isOn state k = true
  · have := isOn_lt on
    rw [on, Bool.eq_iff_iff]
    simp
    omega
  · simp [on]

@[simp] theorem isOn_layerOn_self {state : LayerState maxLayer} {layer : Nat} (h : layer < maxLayer) :
    isOn (layerOn state layer) layer = true := by
  simp [isOn_layerOn, h]

@[simp] theorem isOn_layerOff_self (state : LayerState maxLayer) (layer : Nat) :
    isOn (layerOff state layer) layer = false := by
  simp [isOn_layerOff]

theorem isOn_layerOn_of_ne {state : LayerState maxLayer} {layer k : Nat} (h : k ≠ layer) :
    isOn (layerOn state layer) k = isOn state k := by
  simp [isOn_layerOn, h]

theorem isOn_layerOff_of_ne {state : LayerState maxLayer} {layer k : Nat} (h : k ≠ layer) :
    isOn (layerOff state layer) k = isOn state k := by
  simp [isOn_layerOff, h]

end QmkFirmware.Layer
