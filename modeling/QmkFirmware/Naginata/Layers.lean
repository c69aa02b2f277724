import QmkFirmware.Lib.Run
import QmkFirmware.Naginata.Code

/-!
# The layer of the input method

While the mode is on, `naginata_mode` counts the modifier keys that are held and keeps
the layer of the input method on exactly while there is none. The counter goes on from
where it was when the mode is switched, so that a switch with a modifier held leaves
it wrong.
-/

namespace QmkFirmware.Naginata
open Lib Layer

/-- The state, and what each key that is down was pressed as. -/
structure Keyboard where
  state : State
  down : Position → Option Keycode

namespace Keyboard

/-- The keyboard at the start, with no key down -/
def start : Keyboard := ⟨boot, fun _ => none⟩

def step (w : Keyboard) (e : Event) : Keyboard :=
  { state := record w.state e
    down := Function.update w.down e.key (if e.pressed then some e.keycode else none) }

/-- A key is pressed while it is up, and released as what it was pressed as. -/
def Physical (w : Keyboard) (e : Event) : Prop :=
  w.down e.key = if e.pressed then none else some e.keycode

instance (w : Keyboard) (e : Event) : Decidable (Physical w e) :=
  inferInstanceAs (Decidable (w.down e.key = _))

def isModifier : Keycode → Bool
  | .modifier _ => true
  | _ => false

def isNg : Keycode → Bool
  | .ng _ => true
  | _ => false

/-- The modifier keys that are held -/
def held (w : Keyboard) : Finset Position := Finset.univ.filter fun key => (w.down key).any isModifier

/-- The mode is switched on, or off while it is on, with no modifier held, and a key of the input
method finds a slot in the buffer. -/
def SwitchOk (w : Keyboard) (e : Event) : Prop :=
  (e.pressed = true ∧ (e.keycode = .lng1 ∨ e.keycode = .lng2 ∧ w.state.isNaginata = true) → w.held = ∅) ∧
  (e.pressed = true ∧ w.state.isNaginata = true ∧ isNg e.keycode = true → w.state.ngChrcount < ngBuffer)

instance (w : Keyboard) (e : Event) : Decidable (SwitchOk w e) :=
  inferInstanceAs (Decidable ((_ → _) ∧ (_ → _)))

/-- While the mode is on, the layer is on exactly while no modifier is held, and the counter
counts those that are. -/
def Consistent (w : Keyboard) : Prop :=
  w.state.isNaginata = true →
    (w.held = ∅ → isOn w.state.layerState naginata = true) ∧
    (w.held ≠ ∅ → isOn w.state.layerState naginata = false) ∧
    w.state.nModifier.toNat = w.held.card

/-- The invariant: `Consistent`, and no count is left while the mode is off. -/
structure Counted (w : Keyboard) : Prop where
  layer : w.state.naginataLayer = naginata
  on : w.Consistent
  off : w.state.isNaginata = false → w.state.nModifier = 0

end Keyboard

/-! ## What an event does to the mode and the layer -/

/-- The parts of the state that the layer depends on -/
structure SameLayer (s t : State) : Prop where
  isNaginata : t.isNaginata = s.isNaginata
  naginataLayer : t.naginataLayer = s.naginataLayer
  nModifier : t.nModifier = s.nModifier
  layer : isOn t.layerState naginata = isOn s.layerState naginata

namespace SameLayer

variable {s t u : State}

theorem refl (s : State) : SameLayer s s := ⟨rfl, rfl, rfl, rfl⟩

theorem trans (h : SameLayer s t) (h' : SameLayer t u) : SameLayer s u :=
  ⟨h'.isNaginata.trans h.isNaginata, h'.naginataLayer.trans h.naginataLayer, h'.nModifier.trans h.nModifier,
    h'.layer.trans h.layer⟩

end SameLayer

theorem naginataType_layer (s : State) : SameLayer s (naginataType s) := by
  unfold naginataType
  split <;> exact ⟨rfl, rfl, rfl, rfl⟩

theorem gather_layer (key : NgKey) (s : State) : SameLayer s (gather key s) := by
  unfold gather
  split <;> exact ⟨rfl, rfl, rfl, rfl⟩

theorem processNaginata_layer (keycode : Keycode) (pressed : Bool) (s : State) :
    SameLayer s (processNaginata keycode pressed s).2 := by
  unfold processNaginata
  split
  next key =>
    split
    · dsimp only
      split
      · exact (gather_layer key s).trans (naginataType_layer _)
      · exact gather_layer key s
    · dsimp only
      split
      · exact ⟨(naginataType_layer s).isNaginata, (naginataType_layer s).naginataLayer,
          (naginataType_layer s).nModifier, (naginataType_layer s).layer⟩
      · exact ⟨rfl, rfl, rfl, rfl⟩
  next => exact SameLayer.refl s

theorem momentary_layer {layer : Nat} (ne : naginata ≠ layer) (pressed : Bool) (s : State) :
    SameLayer s (momentary layer pressed s) := by
  refine ⟨rfl, rfl, rfl, ?_⟩
  unfold momentary
  cases pressed with
  | true => exact isOn_layerOn_of_ne ne
  | false => exact isOn_layerOff_of_ne ne

theorem updateTriLayer_layer (layer1 layer2 : Nat) {layer3 : Nat} (ne : naginata ≠ layer3) (s : State) :
    SameLayer s (updateTriLayer layer1 layer2 layer3 s) := by
  refine ⟨rfl, rfl, rfl, ?_⟩
  unfold updateTriLayer updateTriLayerState
  dsimp only
  split
  · exact isOn_layerOn_of_ne ne
  · exact isOn_layerOff_of_ne ne

/-- Only the modifiers and the two keys that switch the mode touch the layer. -/
theorem record_layer {s : State} {e : Event} (mod : ∀ m, e.keycode ≠ .modifier m)
    (switch : e.pressed = true → e.keycode ≠ .lng1 ∧ e.keycode ≠ .lng2) : SameLayer s (record s e) := by
  unfold record processRecordUser
  have mode : naginataMode e.keycode e.pressed s = s := by
    unfold naginataMode
    split
    · rfl
    · split
      next m h => exact absurd h (mod m)
      next => rfl
  split
  case h_5 h =>
    dsimp only
    split
    next pressed => exact absurd h (switch pressed).2
    next => exact SameLayer.refl s
  case h_6 h =>
    dsimp only
    split
    next pressed => exact absurd h (switch pressed).1
    next => exact SameLayer.refl s
  case h_7 => exact momentary_layer (by decide) _ s
  case h_8 => exact (momentary_layer (by decide) _ s).trans (updateTriLayer_layer _ _ (by decide) _)
  case h_9 => exact (momentary_layer (by decide) _ s).trans (updateTriLayer_layer _ _ (by decide) _)
  case h_10 =>
    rw [mode]
    split
    · exact processNaginata_layer _ _ s
    · exact SameLayer.refl s
  all_goals
    dsimp only
    split <;> exact ⟨rfl, rfl, rfl, rfl⟩

/-- Without the mode a modifier does nothing. -/
theorem record_modifier_off {s : State} {e : Event} {m : Modifier} (mod : e.keycode = .modifier m)
    (off : s.isNaginata = false) : record s e = s := by
  unfold record processRecordUser
  simp [mod, off]

theorem record_modifier_press {s : State} {e : Event} {m : Modifier} (mod : e.keycode = .modifier m)
    (pressed : e.pressed = true) (on : s.isNaginata = true) :
    record s e =
      { s with nModifier := s.nModifier + 1, layerState := layerOff s.layerState s.naginataLayer } := by
  unfold record processRecordUser naginataMode processNaginata
  simp [mod, on, pressed]

theorem record_modifier_release {s : State} {e : Event} {m : Modifier} (mod : e.keycode = .modifier m)
    (released : e.pressed = false) (on : s.isNaginata = true) :
    record s e =
      { s with
        nModifier := s.nModifier - 1
        layerState := if s.nModifier - 1 = 0 then layerOn s.layerState s.naginataLayer else s.layerState } := by
  unfold record processRecordUser naginataMode processNaginata
  simp only [mod, on, released, if_true, Bool.not_true, Bool.false_eq_true, if_false]
  split <;> simp

theorem record_lng1 {s : State} {e : Event} (key : e.keycode = .lng1) (pressed : e.pressed = true) :
    record s e = naginataOn s := by
  unfold record processRecordUser
  simp [key, pressed]

theorem record_lng2 {s : State} {e : Event} (key : e.keycode = .lng2) (pressed : e.pressed = true) :
    record s e = naginataOff s := by
  unfold record processRecordUser
  simp [key, pressed]

namespace Keyboard

variable {w : Keyboard} {e : Event}

/-! ## What an event does to the keys that are held -/

theorem mem_held {key : Position} : key ∈ w.held ↔ (w.down key).any isModifier = true := by
  simp [held]

theorem mem_held_step {key : Position} :
    key ∈ (w.step e).held ↔
      if key = e.key then e.pressed = true ∧ isModifier e.keycode = true else key ∈ w.held := by
  rw [mem_held]
  unfold step
  dsimp only
  by_cases same : key = e.key
  · rw [same, Function.update_self, if_pos rfl]
    cases e.pressed <;> simp
  · rw [Function.update_of_ne same, if_neg same, mem_held]

/-- A key that is no modifier is none when it is released either. -/
theorem held_step_of_ne (physical : Physical w e) (mod : isModifier e.keycode = false) :
    (w.step e).held = w.held := by
  ext key
  rw [mem_held_step]
  split
  next same =>
    rw [mem_held, same, show w.down e.key = _ from physical, mod]
    cases e.pressed <;> simp [mod]
  next => rfl

theorem held_step_press (physical : Physical w e) (mod : isModifier e.keycode = true) (pressed : e.pressed = true) :
    (w.step e).held = insert e.key w.held ∧ e.key ∉ w.held := by
  constructor
  · ext key
    rw [mem_held_step, Finset.mem_insert]
    by_cases same : key = e.key <;> simp [same, mod, pressed]
  · rw [mem_held, show w.down e.key = _ from physical, pressed]
    simp

theorem held_step_release (physical : Physical w e) (mod : isModifier e.keycode = true)
    (released : e.pressed = false) : (w.step e).held = w.held.erase e.key ∧ e.key ∈ w.held := by
  constructor
  · ext key
    rw [mem_held_step, Finset.mem_erase]
    by_cases same : key = e.key <;> simp [same, released]
  · rw [mem_held, show w.down e.key = _ from physical, released]
    simpa using mod

/-- The counter has room for every key of the keyboard. -/
theorem held_card_le (w : Keyboard) : w.held.card ≤ 96 := by
  have := Finset.card_le_univ w.held
  simpa using this

/-! ## The invariant -/

theorem counted_start : Counted start :=
  ⟨rfl, fun on => absurd on (by decide), fun _ => rfl⟩

/-- An event that changes neither what the layer depends on nor the modifiers that are held -/
theorem Counted.same (h : Counted w) (same : SameLayer w.state (record w.state e))
    (held : (w.step e).held = w.held) : Counted (w.step e) := by
  refine ⟨same.naginataLayer.trans h.layer, fun on => ?_, fun off => ?_⟩
  · rw [held]
    change (_ → isOn (record w.state e).layerState naginata = true) ∧
      (_ → isOn (record w.state e).layerState naginata = false) ∧ (record w.state e).nModifier.toNat = _
    rw [same.layer, same.nModifier]
    exact h.on (same.isNaginata.symm.trans on)
  · exact same.nModifier.trans (h.off (same.isNaginata.symm.trans off))

theorem Counted.press (h : Counted w) (physical : Physical w e) {m : Modifier} (mod : e.keycode = .modifier m)
    (pressed : e.pressed = true) (on : w.state.isNaginata = true) : Counted (w.step e) := by
  obtain ⟨held, fresh⟩ := held_step_press physical (by rw [mod]; rfl) pressed
  have after := record_modifier_press mod pressed on
  have count : (w.state.nModifier + 1).toNat = w.held.card + 1 := by
    have := held_card_le w
    rw [BitVec.toNat_add, (h.on on).2.2]
    simp
    omega
  refine ⟨?_, fun _ => ⟨fun none => ?_, fun _ => ?_, ?_⟩, fun off => ?_⟩
  · rw [step, after]
    exact h.layer
  · rw [held] at none
    exact absurd none (Finset.insert_ne_empty _ _)
  · rw [step, after, h.layer]
    exact isOn_layerOff_self _ _
  · rw [held, Finset.card_insert_of_notMem fresh, step, after]
    exact count
  · rw [step, after] at off
    exact absurd (on.symm.trans off) (by decide)

theorem Counted.release (h : Counted w) (physical : Physical w e) {m : Modifier} (mod : e.keycode = .modifier m)
    (released : e.pressed = false) (on : w.state.isNaginata = true) : Counted (w.step e) := by
  obtain ⟨held, mem⟩ := held_step_release physical (by rw [mod]; rfl) released
  have after := record_modifier_release mod released on
  have positive := Finset.card_pos.mpr ⟨_, mem⟩
  have card := Finset.card_erase_of_mem mem
  obtain ⟨-, heldOff, counted⟩ := h.on on
  have count : (w.state.nModifier - 1).toNat = w.held.card - 1 := by
    have := held_card_le w
    rw [BitVec.toNat_sub, counted]
    simp
    omega
  have zero : w.state.nModifier - 1 = 0 ↔ w.held.erase e.key = ∅ := by
    rw [← BitVec.toNat_inj, count, ← Finset.card_eq_zero, card]
    rfl
  refine ⟨?_, fun _ => ⟨fun none => ?_, fun some => ?_, ?_⟩, fun off => ?_⟩
  · rw [step, after]
    exact h.layer
  · rw [held] at none
    rw [step, after]
    dsimp only
    rw [if_pos (zero.mpr none), h.layer]
    exact isOn_layerOn_self (by decide)
  · rw [held] at some
    rw [step, after]
    dsimp only
    rw [if_neg (fun all => some (zero.mp all))]
    exact heldOff (Finset.ne_empty_of_mem mem)
  · rw [held, card, step, after]
    exact count
  · rw [step, after] at off
    exact absurd (on.symm.trans off) (by decide)

theorem Counted.lng1 (h : Counted w) (held : (w.step e).held = w.held) (key : e.keycode = .lng1)
    (pressed : e.pressed = true) (none : w.held = ∅) : Counted (w.step e) := by
  have after := record_lng1 (s := w.state) key pressed
  have zero : w.state.nModifier.toNat = 0 := by
    cases on : w.state.isNaginata with
    | true => rw [(h.on on).2.2, none, Finset.card_empty]
    | false => rw [h.off on]; rfl
  refine ⟨?_, fun _ => ⟨fun _ => ?_, fun some => ?_, ?_⟩, fun off => ?_⟩
  · rw [step, after]
    exact h.layer
  · rw [step, after]
    unfold naginataOn
    change isOn (layerOn w.state.layerState w.state.naginataLayer) naginata = true
    rw [h.layer]
    exact isOn_layerOn_self (by decide)
  · exact absurd (held.trans none) some
  · rw [held, none, Finset.card_empty, step, after]
    exact zero
  · rw [step, after] at off
    exact absurd off (by simp [naginataOn, State.send, naginataClear])

theorem Counted.lng2 (h : Counted w) (key : e.keycode = .lng2) (pressed : e.pressed = true)
    (none : w.state.isNaginata = true → w.held = ∅) : Counted (w.step e) := by
  have after := record_lng2 (s := w.state) key pressed
  refine ⟨?_, fun on => ?_, fun _ => ?_⟩
  · rw [step, after]
    exact h.layer
  · rw [step, after] at on
    exact absurd on (by simp [naginataOff, State.send, naginataClear])
  · rw [step, after]
    change w.state.nModifier = 0
    cases on : w.state.isNaginata with
    | true =>
      rw [← BitVec.toNat_inj, (h.on on).2.2, none on]
      rfl
    | false => exact h.off on

/-- **What one event does** -/
theorem Counted.step (h : Counted w) (physical : Physical w e) (ok : SwitchOk w e) : Counted (w.step e) := by
  by_cases mod : ∃ m, e.keycode = .modifier m
  · obtain ⟨m, mod⟩ := mod
    cases on : w.state.isNaginata with
    | false =>
      have same := record_modifier_off mod on
      refine ⟨?_, fun on' => ?_, fun _ => ?_⟩
      · rw [Keyboard.step, same]
        exact h.layer
      · rw [Keyboard.step, same] at on'
        exact absurd (on'.symm.trans on) (by decide)
      · rw [Keyboard.step, same]
        exact h.off on
    | true =>
      cases pressed : e.pressed with
      | true => exact h.press physical mod pressed on
      | false => exact h.release physical mod pressed on
  · have plain : isModifier e.keycode = false := by
      unfold isModifier
      split
      next m h => exact absurd ⟨m, h⟩ mod
      next => rfl
    have held := held_step_of_ne physical plain
    by_cases switch : e.pressed = true → e.keycode ≠ .lng1 ∧ e.keycode ≠ .lng2
    · exact h.same (record_layer (fun m eq => mod ⟨m, eq⟩) switch) held
    · have pressed : e.pressed = true := by
        by_contra up
        exact switch fun down => absurd down up
      by_cases key : e.keycode = .lng1
      · exact h.lng1 held key pressed (ok.1 ⟨pressed, .inl key⟩)
      · have key : e.keycode = .lng2 := by
          by_contra neither
          exact switch fun _ => ⟨key, neither⟩
        exact h.lng2 key pressed fun on => ok.1 ⟨pressed, .inr ⟨key, on⟩⟩

/-- **The layer is on exactly while no modifier is held**, after every run in which the mode is
switched with no modifier held. -/
theorem naginata_layer_consistent {events : List Event} (physical : Along step Physical start events)
    (ok : Along step SwitchOk start events) : (events.foldl step start).Consistent :=
  (Along.invariant Counted (fun _ _ h he => h.step he.1 he.2) counted_start (physical.and ok)).on

/-- The mode is switched on, and a modifier is pressed and released. -/
theorem naginata_layer_consistent_tap :
    (([⟨(5, 10), .lng1, true⟩, ⟨(5, 10), .lng1, false⟩, ⟨(3, 0), .modifier .lctl, true⟩,
      ⟨(3, 0), .modifier .lctl, false⟩] : List Event).foldl step start).Consistent :=
  naginata_layer_consistent (by decide) (by decide)

/-- The mode is switched on with a modifier held: the layer is on, and the counter wraps at the
release. -/
theorem naginata_layer_leaks :
    Along step Physical start
      [⟨(3, 0), .modifier .lctl, true⟩, ⟨(5, 10), .lng1, true⟩, ⟨(3, 0), .modifier .lctl, false⟩] ∧
    ¬ (([⟨(3, 0), .modifier .lctl, true⟩, ⟨(5, 10), .lng1, true⟩] : List Event).foldl step start).Consistent ∧
    (([⟨(3, 0), .modifier .lctl, true⟩, ⟨(5, 10), .lng1, true⟩, ⟨(3, 0), .modifier .lctl, false⟩] :
      List Event).foldl step start).state.nModifier = 255 := by
  refine ⟨by decide, fun consistent => ?_, by decide⟩
  have := (consistent (by decide)).2.1 (by decide)
  exact absurd this (by decide)

end Keyboard

end QmkFirmware.Naginata
