import QmkFirmware.Layer.State
import QmkFirmware.Tapping.Engine

/-!
# The source layer cache

A release is to do what belongs to the press, so the layer on which a key was found
when it was pressed is kept: one bit of the layer's number in each of `MAX_LAYER_BITS`
bytes, which eight keys share.
-/

namespace QmkFirmware.Layer
open Tapping (KeyPos Action)

/-! ## A number spread over bytes -/

/-- `cache[storage_idx][bit_number]` -/
abbrev Cache := Nat → Nat → BitVec 8

/-- The body of the loop of `update_source_layers_cache_impl` -/
def updateBit (layer : BitVec 8) (entry : Nat) (cache : Cache) (bit : Nat) : Cache := fun i b =>
  if i = entry / 8 ∧ b = bit then
    cache i b ^^^
      (((if layer &&& (1#8 <<< bit) ≠ 0 then BitVec.allOnes 8 else 0) ^^^ cache i b) &&& (1#8 <<< (entry % 8)))
  else cache i b

/-- `update_source_layers_cache_impl` -/
def updateSourceLayersCacheImpl (bits : Nat) (layer : BitVec 8) (entry : Nat) (cache : Cache) : Cache :=
  (List.range bits).foldl (updateBit layer entry) cache

/-- The body of the loop of `read_source_layers_cache_impl` -/
def readBit (entry : Nat) (cache : Cache) (layer : BitVec 8) (bit : Nat) : BitVec 8 :=
  layer ||| ((if cache (entry / 8) bit &&& (1#8 <<< (entry % 8)) ≠ 0 then 1#8 else 0) <<< bit)

/-- `read_source_layers_cache_impl` -/
def readSourceLayersCacheImpl (bits entry : Nat) (cache : Cache) : BitVec 8 :=
  (List.range bits).foldl (readBit entry cache) 0

section Impl

variable {bits entry other : Nat} {layer : BitVec 8} {cache : Cache}

theorem and_one_shiftLeft_ne_zero (x : BitVec 8) (n : Nat) : x &&& (1#8 <<< n) ≠ 0 ↔ x.getLsbD n = true := by
  rw [← BitVec.twoPow_eq, BitVec.and_twoPow]
  split
  case isTrue on =>
    refine iff_of_true (fun zero => ?_) on
    have bit := congrArg (BitVec.getLsbD · n) zero
    simp [BitVec.lt_of_getLsbD on] at bit
  case isFalse off => exact iff_of_false (by simp) off

/-- The masked `^=` sets one bit. -/
theorem getLsbD_merge (x : BitVec 8) (value : Bool) {n k : Nat} (hk : k < 8) :
    (x ^^^ (((if value then BitVec.allOnes 8 else 0) ^^^ x) &&& (1#8 <<< n))).getLsbD k =
      if k = n then value else x.getLsbD k := by
  have fill : (if value then BitVec.allOnes 8 else 0).getLsbD k = value := by
    cases value
    · exact BitVec.getLsbD_zero
    · simp only [if_true, BitVec.getLsbD_allOnes]
      exact decide_eq_true hk
  rw [BitVec.getLsbD_xor, BitVec.getLsbD_and, BitVec.getLsbD_xor, fill, ← BitVec.twoPow_eq, BitVec.getLsbD_twoPow]
  by_cases same : k = n
  · subst same
    rw [decide_eq_true hk, decide_eq_true rfl, if_pos rfl]
    cases value <;> cases x.getLsbD k <;> rfl
  · simp [same, Ne.symm same]

/-- A bit of the number of an entry -/
def stored (cache : Cache) (entry bit : Nat) : Bool := (cache (entry / 8) bit).getLsbD (entry % 8)

theorem stored_updateBit (bit b : Nat) :
    stored (updateBit layer entry cache bit) other b =
      if other = entry ∧ b = bit then layer.getLsbD bit else stored cache other b := by
  have inside : other % 8 < 8 := Nat.mod_lt _ (by decide)
  simp only [stored, updateBit, and_one_shiftLeft_ne_zero]
  by_cases here : other / 8 = entry / 8 ∧ b = bit
  · have entries : other = entry ↔ other % 8 = entry % 8 := by omega
    rw [if_pos here, getLsbD_merge _ _ inside]
    simp only [entries, here.2, and_true]
  · rw [if_neg here, if_neg fun same => here ⟨by rw [same.1], same.2⟩]

theorem stored_update (b : Nat) :
    stored (updateSourceLayersCacheImpl bits layer entry cache) other b =
      if other = entry ∧ b < bits then layer.getLsbD b else stored cache other b := by
  rw [updateSourceLayersCacheImpl]
  induction bits with
  | zero => simp
  | succ bits ih =>
    rw [List.range_succ, List.foldl_append, List.foldl_cons, List.foldl_nil, stored_updateBit, ih]
    by_cases same : other = entry
    · rcases Nat.lt_trichotomy b bits with lt | rfl | gt
      · simp [same, lt, Nat.ne_of_lt lt, Nat.lt_succ_of_lt lt]
      · simp [same]
      · simp [same, Nat.not_lt_of_gt gt, Nat.ne_of_gt gt, show ¬ b < bits + 1 by omega]
    · simp [same]

theorem getLsbD_read (k : Nat) :
    (readSourceLayersCacheImpl bits entry cache).getLsbD k = (decide (k < 8 ∧ k < bits) && stored cache entry k) := by
  rw [readSourceLayersCacheImpl]
  induction bits with
  | zero => simp
  | succ bits ih =>
    rw [List.range_succ, List.foldl_append, List.foldl_cons, List.foldl_nil, readBit, BitVec.getLsbD_or, ih]
    have bit : ((if cache (entry / 8) bits &&& (1#8 <<< (entry % 8)) ≠ 0 then 1#8 else 0) <<< bits).getLsbD k =
        (decide (k < 8 ∧ k = bits) && stored cache entry bits) := by
      simp only [and_one_shiftLeft_ne_zero, stored]
      cases (cache (entry / 8) bits).getLsbD (entry % 8)
      · simp
      · rw [if_pos rfl, ← BitVec.twoPow_eq, BitVec.getLsbD_twoPow]
        by_cases same : k = bits
        · simp [same]
        · simp [same, Ne.symm same]
    rw [bit]
    rcases Nat.lt_trichotomy k bits with lt | rfl | gt
    · simp [lt, Nat.ne_of_lt lt, Nat.lt_succ_of_lt lt]
    · simp
    · simp [Nat.not_lt_of_gt gt, Nat.ne_of_gt gt, show ¬ k < bits + 1 by omega]

/-- What was written to an entry is read from it. -/
theorem read_update (fits : layer.toNat < 2 ^ bits) :
    readSourceLayersCacheImpl bits entry (updateSourceLayersCacheImpl bits layer entry cache) = layer := by
  refine BitVec.eq_of_getLsbD_eq fun k hk => ?_
  rw [getLsbD_read, stored_update]
  rcases Nat.lt_or_ge k bits with lt | ge
  · simp [hk, lt]
  · have zero : layer.getLsbD k = false := Nat.testBit_lt_two_pow (Nat.lt_of_lt_of_le fits (Nat.pow_le_pow_right (by decide) ge))
    simp [Nat.not_lt.2 ge, zero]

/-- Another entry keeps what was written to it. -/
theorem read_update_of_ne (ne : other ≠ entry) :
    readSourceLayersCacheImpl bits other (updateSourceLayersCacheImpl bits layer entry cache) =
      readSourceLayersCacheImpl bits other cache := by
  refine BitVec.eq_of_getLsbD_eq fun k _ => ?_
  rw [getLsbD_read, getLsbD_read, stored_update, if_neg fun same => ne same.1]

theorem read_zero : readSourceLayersCacheImpl bits entry (fun _ _ => 0) = 0 := by
  refine BitVec.eq_of_getLsbD_eq fun k _ => ?_
  rw [getLsbD_read]
  simp [stored]

end Impl

/-! ## The keys and their entries -/

/-- The sizes of the matrix, the encoders (`none` without `ENCODER_MAP_ENABLE`), `MAX_LAYER_BITS` and `MAX_LAYER`, and
the keymap with the actions of its keycodes -/
structure Board where
  matrixRows : Nat
  matrixCols : Nat
  numEncoders : Option Nat
  maxLayerBits : Nat
  maxLayer : Nat
  keymapKeyToKeycode : Nat → KeyPos → UInt16
  actionForKeycode : UInt16 → Action
  -- a position has eight bits for each, and so has a layer
  rows_le : matrixRows ≤ 256
  cols_le : matrixCols ≤ 256
  fits : maxLayer ≤ 2 ^ maxLayerBits
  layers_le : maxLayer ≤ 32

/-- `ACTION_TRANSPARENT` -/
def actionTransparent : Action := 1

/-- `KEYLOC_ENCODER_CW` -/
def keylocEncoderCw : UInt8 := 253
/-- `KEYLOC_ENCODER_CCW` -/
def keylocEncoderCcw : UInt8 := 252

/-- `source_layers_cache` and `encoder_source_layers_cache` -/
structure Caches where
  matrix : Cache
  encoder : Cache

namespace Board

variable (board : Board)

/-- `action_for_key` -/
def actionForKey (layer : Nat) (key : KeyPos) : Action := board.actionForKeycode (board.keymapKeyToKeycode layer key)

/-- `key.row < MATRIX_ROWS && key.col < MATRIX_COLS` -/
def inMatrix (key : KeyPos) : Bool := decide (key.row.toNat < board.matrixRows) && decide (key.col.toNat < board.matrixCols)

/-- The condition of the second branch -/
def isEncoder (key : KeyPos) : Bool :=
  board.numEncoders.isSome && (key.row == keylocEncoderCw || key.row == keylocEncoderCcw)

/-- `entry_number` of a key of the matrix, in 16 bits -/
def entryNumber (key : KeyPos) : Nat := ((key.row.toNat * board.matrixCols) % 2 ^ 16 + key.col.toNat) % 2 ^ 16

/-- `update_source_layers_cache` -/
def updateSourceLayersCache (key : KeyPos) (layer : BitVec 8) (caches : Caches) : Caches :=
  if board.inMatrix key then
    { caches with matrix := updateSourceLayersCacheImpl board.maxLayerBits layer (board.entryNumber key) caches.matrix }
  else if board.isEncoder key then
    { caches with encoder := updateSourceLayersCacheImpl board.maxLayerBits layer key.col.toNat caches.encoder }
  else caches

/-- `read_source_layers_cache` -/
def readSourceLayersCache (key : KeyPos) (caches : Caches) : BitVec 8 :=
  if board.inMatrix key then readSourceLayersCacheImpl board.maxLayerBits (board.entryNumber key) caches.matrix
  else if board.isEncoder key then readSourceLayersCacheImpl board.maxLayerBits key.col.toNat caches.encoder
  else 0

/-- The keys that have an entry -/
def IsKey (key : KeyPos) : Prop :=
  board.inMatrix key = true ∨ board.isEncoder key = true ∧ ∀ n, board.numEncoders = some n → key.col.toNat < n

instance (key : KeyPos) : Decidable (board.IsKey key) := inferInstanceAs (Decidable (_ ∨ _))

/-- The two directions of an encoder -/
def Opposite (key other : KeyPos) : Prop :=
  board.inMatrix key = false ∧ board.inMatrix other = false ∧ board.isEncoder key = true ∧ board.isEncoder other = true ∧
    key.col = other.col ∧ key ≠ other

instance (key other : KeyPos) : Decidable (board.Opposite key other) := inferInstanceAs (Decidable (_ ∧ _))

variable {board} {key other : KeyPos} {layer : BitVec 8} {caches : Caches}

/-- The number of a key of the matrix has no overflow, and the array has a place for it. -/
theorem entryNumber_eq (h : board.inMatrix key = true) :
    board.entryNumber key = key.row.toNat * board.matrixCols + key.col.toNat ∧
      board.entryNumber key / 8 < (board.matrixRows * board.matrixCols + 7) / 8 := by
  simp only [inMatrix, Bool.and_eq_true, decide_eq_true_eq] at h
  have inside : key.row.toNat * board.matrixCols + key.col.toNat < board.matrixRows * board.matrixCols := by
    have step := Nat.mul_le_mul_right board.matrixCols (Nat.succ_le_of_lt h.1)
    rw [Nat.succ_mul] at step
    omega
  have small : board.matrixRows * board.matrixCols ≤ 256 * 256 := Nat.mul_le_mul board.rows_le board.cols_le
  have exact : board.entryNumber key = key.row.toNat * board.matrixCols + key.col.toNat := by
    rw [entryNumber, Nat.mod_eq_of_lt (show key.row.toNat * board.matrixCols < 2 ^ 16 by omega)]
    exact Nat.mod_eq_of_lt (by omega)
  exact ⟨exact, by omega⟩

theorem entryNumber_inj (h : board.inMatrix key = true) (h' : board.inMatrix other = true)
    (same : board.entryNumber key = board.entryNumber other) : key = other := by
  rw [(entryNumber_eq h).1, (entryNumber_eq h').1] at same
  simp only [inMatrix, Bool.and_eq_true, decide_eq_true_eq] at h h'
  have rows : key.row.toNat = other.row.toNat := by
    have := congrArg (· / board.matrixCols) same
    simpa [Nat.mul_comm _ board.matrixCols, Nat.mul_add_div (Nat.zero_lt_of_lt h.2), Nat.div_eq_of_lt h.2,
      Nat.div_eq_of_lt h'.2] using this
  rw [rows] at same
  cases key
  cases other
  simp only [KeyPos.mk.injEq]
  exact ⟨UInt8.toNat_inj.1 (Nat.add_left_cancel same), UInt8.toNat_inj.1 rows⟩

/-- **Reading after an update** gives the layer that was stored. -/
theorem read_updateSourceLayersCache (known : board.IsKey key) (fits : layer.toNat < 2 ^ board.maxLayerBits) :
    board.readSourceLayersCache key (board.updateSourceLayersCache key layer caches) = layer := by
  unfold readSourceLayersCache updateSourceLayersCache
  by_cases inside : board.inMatrix key = true
  · simp only [if_pos inside]
    exact read_update fits
  · have encoder := (known.resolve_left inside).1
    simp only [if_neg inside, if_pos encoder]
    exact read_update fits

/-- The other direction of an encoder reads it too. -/
theorem read_of_opposite (opposite : board.Opposite key other) (fits : layer.toNat < 2 ^ board.maxLayerBits) :
    board.readSourceLayersCache other (board.updateSourceLayersCache key layer caches) = layer := by
  obtain ⟨outside, outside', encoder, encoder', same, -⟩ := opposite
  unfold readSourceLayersCache updateSourceLayersCache
  simp only [outside, outside', encoder, encoder', Bool.false_eq_true, if_false, if_true, same]
  exact read_update fits

/-- Reading any other key, the other direction of an encoder apart, gives what it gave before. -/
theorem read_updateSourceLayersCache_of_ne (ne : other ≠ key) (apart : ¬ board.Opposite key other) :
    board.readSourceLayersCache other (board.updateSourceLayersCache key layer caches) =
      board.readSourceLayersCache other caches := by
  unfold readSourceLayersCache updateSourceLayersCache
  by_cases inside : board.inMatrix key = true
  · simp only [if_pos inside]
    split
    case isTrue there => exact read_update_of_ne fun same => ne (entryNumber_inj there inside same)
    case isFalse => rfl
  · simp only [if_neg inside]
    by_cases encoder : board.isEncoder key = true
    · simp only [if_pos encoder]
      split
      case isTrue => rfl
      case isFalse outside =>
        split
        case isTrue there =>
          refine read_update_of_ne fun same => apart ?_
          exact ⟨by simpa using inside, by simpa using outside, encoder, there, UInt8.toNat_inj.1 same.symm, Ne.symm ne⟩
        case isFalse => rfl
    · simp only [if_neg encoder]

end Board

/-! ## Presses and releases -/

/-- The layer states, the caches, and `disable_action_cache`, which nothing sets but `process_record_nocache`, which
nothing calls -/
structure Layers (board : Board) where
  layerState : LayerState (2 ^ board.maxLayerBits)
  defaultLayerState : LayerState (2 ^ board.maxLayerBits)
  caches : Caches
  disableActionCache : Bool

namespace Layers

variable {board : Board}

def initial (board : Board) : Layers board := ⟨0, 0, ⟨fun _ _ => 0, fun _ _ => 0⟩, false⟩

/-- `layer_switch_get_layer` -/
def layerSwitchGetLayer (s : Layers board) (key : KeyPos) : BitVec 8 :=
  BitVec.ofNat 8 (((List.range board.maxLayer).reverse.find? fun i =>
    isOn (s.layerState ||| s.defaultLayerState) i && board.actionForKey i key != actionTransparent).getD 0)

/-- `layer_switch_get_action` -/
def layerSwitchGetAction (s : Layers board) (key : KeyPos) : Action :=
  board.actionForKey (s.layerSwitchGetLayer key).toNat key

/-- The layer of a press is found and kept, that of a release is read. -/
def sourceLayer (s : Layers board) (found : Bool) (key : KeyPos) : BitVec 8 × Layers board :=
  if found then
    let layer := s.layerSwitchGetLayer key
    (layer, { s with caches := board.updateSourceLayersCache key layer s.caches })
  else (board.readSourceLayersCache key s.caches, s)

/-- `store_or_get_action` -/
def storeOrGetAction (s : Layers board) (pressed : Bool) (key : KeyPos) : Action × Layers board :=
  if s.disableActionCache then (s.layerSwitchGetAction key, s)
  else
    let (layer, s) := s.sourceLayer pressed key
    (board.actionForKey layer.toNat key, s)

/-- `get_event_keycode` -/
def getEventKeycode (s : Layers board) (key : KeyPos) (pressed updateLayerCache : Bool) : UInt16 × Layers board :=
  if s.disableActionCache then (board.keymapKeyToKeycode (s.layerSwitchGetLayer key).toNat key, s)
  else
    let (layer, s) := s.sourceLayer (pressed && updateLayerCache) key
    (board.keymapKeyToKeycode layer.toNat key, s)

theorem storeOrGetAction_eq {s : Layers board} (enabled : s.disableActionCache = false) (pressed : Bool) (key : KeyPos) :
    s.storeOrGetAction pressed key =
      (board.actionForKey (s.sourceLayer pressed key).1.toNat key, (s.sourceLayer pressed key).2) := by
  rw [storeOrGetAction, enabled]
  rfl

theorem getEventKeycode_eq {s : Layers board} (enabled : s.disableActionCache = false) (key : KeyPos)
    (pressed updateLayerCache : Bool) :
    s.getEventKeycode key pressed updateLayerCache =
      (board.keymapKeyToKeycode (s.sourceLayer (pressed && updateLayerCache) key).1.toNat key,
        (s.sourceLayer (pressed && updateLayerCache) key).2) := by
  rw [getEventKeycode, enabled]
  rfl

theorem layerSwitchGetLayer_lt (s : Layers board) (key : KeyPos) :
    (s.layerSwitchGetLayer key).toNat < 2 ^ board.maxLayerBits := by
  rw [layerSwitchGetLayer]
  generalize found : (List.range board.maxLayer).reverse.find? _ = layer
  cases layer with
  | none => exact Nat.two_pow_pos board.maxLayerBits
  | some i =>
    have lt : i < board.maxLayer := by
      have mem := List.mem_of_find?_eq_some found
      rwa [List.mem_reverse, List.mem_range] at mem
    have := board.fits
    have := board.layers_le
    rw [Option.getD_some, BitVec.toNat_ofNat, Nat.mod_eq_of_lt (by omega)]
    omega

end Layers

/-- What happens: the layers change in any way, a press or a release is resolved to its action, or the keycode of an
event is looked up -/
inductive LayerEvent (board : Board) where
  | setLayers (layerState defaultLayerState : LayerState (2 ^ board.maxLayerBits))
  | action (pressed : Bool) (key : KeyPos)
  | keycode (key : KeyPos) (pressed updateLayerCache : Bool)

/-- The entry of the key is written. -/
def LayerEvent.Presses {board : Board} (key : KeyPos) : LayerEvent board → Prop
  | .setLayers _ _ => False
  | .action pressed other => pressed = true ∧ (key = other ∨ board.Opposite other key)
  | .keycode other pressed updateLayerCache =>
    (pressed && updateLayerCache) = true ∧ (key = other ∨ board.Opposite other key)

instance {board : Board} (key : KeyPos) : ∀ event : LayerEvent board, Decidable (event.Presses key)
  | .setLayers _ _ => inferInstanceAs (Decidable False)
  | .action pressed other => inferInstanceAs (Decidable (pressed = true ∧ (key = other ∨ board.Opposite other key)))
  | .keycode other pressed updateLayerCache =>
    inferInstanceAs (Decidable ((pressed && updateLayerCache) = true ∧ (key = other ∨ board.Opposite other key)))

namespace Layers

variable {board : Board}

/-- What an event does to the layers -/
def happens (s : Layers board) : LayerEvent board → Layers board
  | .setLayers layerState defaultLayerState => { s with layerState, defaultLayerState }
  | .action pressed key => (s.storeOrGetAction pressed key).2
  | .keycode key pressed updateLayerCache => (s.getEventKeycode key pressed updateLayerCache).2

theorem sourceLayer_enabled (s : Layers board) (found : Bool) (key : KeyPos) :
    (s.sourceLayer found key).2.disableActionCache = s.disableActionCache := by
  cases found <;> rfl

theorem happens_enabled {s : Layers board} (enabled : s.disableActionCache = false) (event : LayerEvent board) :
    (s.happens event).disableActionCache = false := by
  cases event with
  | setLayers layerState defaultLayerState => exact enabled
  | action pressed key =>
    rw [happens, storeOrGetAction_eq enabled]
    exact (sourceLayer_enabled s pressed key).trans enabled
  | keycode key pressed updateLayerCache =>
    rw [happens, getEventKeycode_eq enabled]
    exact (sourceLayer_enabled s _ key).trans enabled

/-- Only a press of the key, or of the other direction of its encoder, changes what it reads. -/
theorem read_sourceLayer {s : Layers board} {found : Bool} {key other : KeyPos}
    (apart : ¬ (found = true ∧ (other = key ∨ board.Opposite key other))) :
    board.readSourceLayersCache other (s.sourceLayer found key).2.caches = board.readSourceLayersCache other s.caches := by
  cases found with
  | false => rfl
  | true =>
    rw [not_and, not_or] at apart
    obtain ⟨ne, apart⟩ := apart rfl
    exact Board.read_updateSourceLayersCache_of_ne ne apart

theorem read_happens {s : Layers board} (enabled : s.disableActionCache = false) {event : LayerEvent board} {key : KeyPos}
    (apart : ¬ event.Presses key) :
    board.readSourceLayersCache key (s.happens event).caches = board.readSourceLayersCache key s.caches := by
  cases event with
  | setLayers layerState defaultLayerState => rfl
  | action pressed other =>
    rw [happens, storeOrGetAction_eq enabled]
    exact read_sourceLayer apart
  | keycode other pressed updateLayerCache =>
    rw [happens, getEventKeycode_eq enabled]
    exact read_sourceLayer apart

/-- What several events do -/
theorem happens_all {s : Layers board} (enabled : s.disableActionCache = false) {events : List (LayerEvent board)} :
    (events.foldl happens s).disableActionCache = false ∧
      ∀ key, (∀ event ∈ events, ¬ event.Presses key) →
        board.readSourceLayersCache key (events.foldl happens s).caches = board.readSourceLayersCache key s.caches := by
  induction events generalizing s with
  | nil => exact ⟨enabled, fun _ _ => rfl⟩
  | cons event events ih =>
    obtain ⟨enabled', reads⟩ := ih (happens_enabled enabled event)
    refine ⟨enabled', fun key apart => ?_⟩
    rw [List.foldl_cons, reads key fun e he => apart e (List.mem_cons_of_mem _ he)]
    exact read_happens enabled (apart event List.mem_cons_self)

end Layers

/-- The layers, and what the cache is to hold: the layer on which each key was found when it was last pressed -/
structure LayerWorld (board : Board) where
  layers : Layers board
  cached : KeyPos → BitVec 8

namespace LayerWorld

variable {board : Board}

def initial (board : Board) : LayerWorld board := ⟨.initial board, fun _ => 0⟩

/-- A key is found on its layer, and so is the other direction of its encoder. -/
def press (w : LayerWorld board) (key : KeyPos) : KeyPos → BitVec 8 := fun other =>
  if other = key ∨ board.Opposite key other then w.layers.layerSwitchGetLayer key else w.cached other

def step (w : LayerWorld board) : LayerEvent board → LayerWorld board
  | .setLayers layerState defaultLayerState => { w with layers := { w.layers with layerState, defaultLayerState } }
  | .action pressed key => ⟨(w.layers.storeOrGetAction pressed key).2, if pressed then w.press key else w.cached⟩
  | .keycode key pressed updateLayerCache =>
    ⟨(w.layers.getEventKeycode key pressed updateLayerCache).2, if pressed && updateLayerCache then w.press key else w.cached⟩

/-- The cache holds what it is to hold. -/
structure Exact (w : LayerWorld board) : Prop where
  enabled : w.layers.disableActionCache = false
  reads : ∀ key, board.IsKey key → board.readSourceLayersCache key w.layers.caches = w.cached key

variable {w : LayerWorld board}

theorem Exact.found (h : w.Exact) (found : Bool) (key : KeyPos) :
    Exact ⟨(w.layers.sourceLayer found key).2, if found then w.press key else w.cached⟩ := by
  cases found with
  | false => exact h
  | true =>
    refine ⟨h.enabled, fun other known => ?_⟩
    change board.readSourceLayersCache other (board.updateSourceLayersCache key (w.layers.layerSwitchGetLayer key) _) =
      w.press key other
    have fits := w.layers.layerSwitchGetLayer_lt key
    rw [press]
    split
    case isTrue shared =>
      rcases shared with rfl | opposite
      · exact Board.read_updateSourceLayersCache known fits
      · exact Board.read_of_opposite opposite fits
    case isFalse apart =>
      rw [not_or] at apart
      rw [← h.reads other known]
      exact Board.read_updateSourceLayersCache_of_ne apart.1 apart.2

theorem Exact.next (h : w.Exact) (event : LayerEvent board) : (w.step event).Exact := by
  cases event with
  | setLayers layerState defaultLayerState => exact ⟨h.enabled, h.reads⟩
  | action pressed key =>
    have found := h.found pressed key
    rw [LayerWorld.step, Layers.storeOrGetAction_eq h.enabled]
    exact found
  | keycode key pressed updateLayerCache =>
    have found := h.found (pressed && updateLayerCache) key
    rw [LayerWorld.step, Layers.getEventKeycode_eq h.enabled]
    exact found

theorem Exact.run {w : LayerWorld board} (h : w.Exact) (events : List (LayerEvent board)) : (events.foldl step w).Exact := by
  induction events generalizing w with
  | nil => exact h
  | cons event events ih => exact ih (h.next event)

theorem exact_initial : (initial board).Exact := by
  refine ⟨rfl, fun key _ => ?_⟩
  unfold Board.readSourceLayersCache
  split
  · exact read_zero
  · split
    · exact read_zero
    · rfl

/-- **A release does what belongs to its press.** After any presses, releases, lookups and changes of the layers, every key
reads the layer on which it was found when it, or the other direction of its encoder, was last pressed; an update changes
what the key reads and, the other direction apart, what no other key reads. -/
theorem release_on_press_layer (board : Board) (events : List (LayerEvent board)) :
    let w := events.foldl step (initial board)
    (∀ key, board.IsKey key →
      board.readSourceLayersCache key w.layers.caches = w.cached key ∧
      (w.layers.storeOrGetAction false key).1 = board.actionForKey (w.cached key).toNat key ∧
      (∀ update, (w.layers.getEventKeycode key false update).1 = board.keymapKeyToKeycode (w.cached key).toNat key) ∧
      (w.layers.storeOrGetAction true key).1 =
        board.actionForKey ((w.step (.action true key)).cached key).toNat key) ∧
    ∀ key layer, board.IsKey key → layer.toNat < 2 ^ board.maxLayerBits →
      board.readSourceLayersCache key (board.updateSourceLayersCache key layer w.layers.caches) = layer ∧
      ∀ other, other ≠ key → ¬ board.Opposite key other →
        board.readSourceLayersCache other (board.updateSourceLayersCache key layer w.layers.caches) =
          board.readSourceLayersCache other w.layers.caches := by
  intro w
  have exact : w.Exact := exact_initial.run events
  refine ⟨fun key known => ⟨exact.reads key known, ?_, fun update => ?_, ?_⟩, fun key layer known fits => ?_⟩
  · rw [Layers.storeOrGetAction_eq exact.enabled, ← exact.reads key known]
    rfl
  · rw [Layers.getEventKeycode_eq exact.enabled, ← exact.reads key known]
    rfl
  · rw [Layers.storeOrGetAction_eq exact.enabled]
    simp only [step, if_true, press, true_or, Layers.sourceLayer]
  · exact ⟨Board.read_updateSourceLayersCache known fits, fun other ne apart => Board.read_updateSourceLayersCache_of_ne ne apart⟩

/-! ### An encoder -/

theorem two_le_eight : 2 ≤ 2 ^ 3 := by decide

theorem one_le_rows : 1 ≤ 256 := Nat.one_le_two_pow (n := 8)

theorem two_le_layers : 2 ≤ 32 := Nat.le_add_right 2 30

/-- Two layers of a key and an encoder; every position has a keycode of its own on each layer. -/
def encoderBoard : Board where
  matrixRows := 1
  matrixCols := 1
  numEncoders := some 1
  maxLayerBits := 3
  maxLayer := 2
  keymapKeyToKeycode layer key := UInt16.ofNat (256 * (layer + 1)) + key.row.toUInt16
  actionForKeycode keycode := keycode
  rows_le := one_le_rows
  cols_le := one_le_rows
  fits := two_le_eight
  layers_le := two_le_layers

def cw : KeyPos := ⟨0, keylocEncoderCw⟩
def ccw : KeyPos := ⟨0, keylocEncoderCcw⟩

theorem release_on_press_layer_key :
    let w := [LayerEvent.action true ⟨0, 0⟩, .setLayers 2 1, .keycode cw true true].foldl step (initial encoderBoard)
    (w.layers.storeOrGetAction false ⟨0, 0⟩).1 = encoderBoard.actionForKey 0 ⟨0, 0⟩ :=
  ((release_on_press_layer encoderBoard [LayerEvent.action true ⟨0, 0⟩, .setLayers 2 1, .keycode cw true true]).1 ⟨0, 0⟩
    (by decide)).2.1

/-- A turn to the right begins on layer 0, and one to the left on layer 1 before it ends: its release has the action of
layer 1. -/
theorem directions_share :
    let w := [LayerEvent.action true cw, .setLayers 2 1, .action true ccw].foldl step (initial encoderBoard)
    (w.layers.storeOrGetAction false cw).1 = encoderBoard.actionForKey 1 cw ∧
      ((initial encoderBoard).layers.storeOrGetAction true cw).1 = encoderBoard.actionForKey 0 cw ∧
      encoderBoard.actionForKey 1 cw ≠ encoderBoard.actionForKey 0 cw ∧
      ¬ ∀ (key other : KeyPos) (layer : BitVec 8) (caches : Caches), other ≠ key → encoderBoard.IsKey key →
        encoderBoard.IsKey other → layer.toNat < 8 →
        encoderBoard.readSourceLayersCache other (encoderBoard.updateSourceLayersCache key layer caches) =
          encoderBoard.readSourceLayersCache other caches := by
  refine ⟨by decide +kernel, by decide +kernel, by decide +kernel, fun all => ?_⟩
  have same := all cw ccw 1 ⟨fun _ _ => 0, fun _ _ => 0⟩ (by decide) (by decide)
    (by decide) (by decide)
  exact absurd same (by decide +kernel)

end LayerWorld

end QmkFirmware.Layer
