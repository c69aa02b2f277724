import QmkFirmware.Pointing.AutoMouse
import QmkFirmware.Lib.Run

/-!
# The keys that hold the layer

`mouse_key_tracker` counts the keys held down whose press counted since the last reset. A release
that takes from it what its press did not add makes it too small.
-/

namespace QmkFirmware.Pointing
open Lib

/-- The record adds to the tracker or takes from it. -/
def moves (b : Build) (kb : Hook) (s : State) (r : Record) : Bool :=
  s.isEnabled &&
    match branch b s.layer r with
    | .skip | .toggle => false
    | .hold => true
    | .tapToggle => !reachesToggle b r
    | .other => r.isEvent && isMouseRecord kb r

/-- The record resets the tracker. -/
def resets (b : Build) (kb : Hook) (s : State) (r : Record) : Bool :=
  s.isEnabled && decide (branch b s.layer r = .other) && r.isEvent && !isMouseRecord kb r && !s.isAutoMouseActive b &&
    r.pressed

/-! ## What a record does -/

section
variable {b : Build} {kb : Hook} {s : State} {r : Record}

@[simp] theorem State.toggle_tracker (s : State) : s.toggle.mouseKeyTracker = s.mouseKeyTracker := rfl

@[simp] theorem State.toggle_layers (s : State) : s.toggle.layers = s.layers := rfl

@[simp] theorem State.keyevent_layers (pressed : Bool) (s : State) : (s.keyevent pressed).layers = s.layers := rfl

@[simp] theorem State.clamp_tracker (s : State) : s.clamp.mouseKeyTracker = max s.mouseKeyTracker 0 := by
  rw [State.clamp]
  split
  · dsimp only
    omega
  · omega

@[simp] theorem State.clamp_layers (s : State) : s.clamp.layers = s.layers := by
  rw [State.clamp]
  split <;> rfl

@[simp] theorem State.resetTrigger_tracker (pressed : Bool) (s : State) :
    (s.resetTrigger pressed).mouseKeyTracker = if pressed then 0 else s.mouseKeyTracker := by
  cases pressed <;> rfl

@[simp] theorem State.resetTrigger_layers (s : State) : (s.resetTrigger false).layers = s.layers := rfl

/-- From 127 up the tracker goes below zero, and so to zero. -/
theorem keyevent_tracker {n : Nat} (count : s.mouseKeyTracker = n) (le : n ≤ 127) (pressed : Bool) :
    max (s.keyevent pressed).mouseKeyTracker 0 =
      ((if pressed then if n = 127 then 0 else n + 1 else n - 1 : Nat) : Int) := by
  rw [State.keyevent, count]
  cases pressed with
  | true =>
    rcases le.lt_or_eq with less | rfl
    · have small : ((n : Int) + 1).bmod 256 = n + 1 := by rw [Int.bmod_eq_of_le] <;> omega
      simp only [if_true, small, less.ne, if_false]
      omega
    · rfl
  | false =>
    have small : ((n : Int) - 1).bmod 256 = n - 1 := by rw [Int.bmod_eq_of_le] <;> omega
    simp only [Bool.false_eq_true, if_false, small]
    omega

/-- The tap that reaches `TAPPING_TOGGLE` leaves the tracker as it was. -/
theorem tapToggle_tracker {n : Nat} (count : s.mouseKeyTracker = n) (le : n ≤ 127) :
    max (s.tapToggle b r).mouseKeyTracker 0 =
      if reachesToggle b r then (n : Int) else max (s.keyevent r.pressed).mouseKeyTracker 0 := by
  have same : ((n : Int)).bmod 256 = n := by rw [Int.bmod_eq_of_le] <;> omega
  rw [State.tapToggle]
  dsimp only
  split
  · cases r.pressed with
    | true =>
      simp only [if_true, State.keyevent, count, Int.bmod_sub_bmod, add_sub_cancel_right, same]
      omega
    | false =>
      simp only [Bool.false_eq_true, if_false, State.toggle, State.keyevent, count, Int.bmod_add_bmod,
        sub_add_cancel, same]
      omega
  · rfl

/-- The tracker after a record, as long as it was a number of keys -/
theorem processAutoMouse_tracker {n : Nat} (count : s.mouseKeyTracker = n) (le : n ≤ 127) :
    (processAutoMouse b kb r s).mouseKeyTracker =
      ((if moves b kb s r then if r.pressed then if n = 127 then 0 else n + 1 else n - 1
        else if resets b kb s r then 0 else n : Nat) : Int) := by
  have moved := keyevent_tracker count le r.pressed
  rw [processAutoMouse, moves, resets]
  by_cases enabled : s.isEnabled = true
  · rw [if_neg (not_not.mpr enabled)]
    cases branch b s.layer r with
    | skip => simp [count]
    | toggle => cases r.pressed <;> simp [count]
    | hold => simp [enabled, moved]
    | tapToggle =>
      simp only [State.clamp_tracker, tapToggle_tracker count le, moved, enabled]
      cases reachesToggle b r <;> simp
    | other =>
      by_cases event : r.isEvent = true
      · by_cases mouse : isMouseRecord kb r = true
        · simp [enabled, event, mouse, moved]
        · by_cases active : s.isAutoMouseActive b = true
          · simp [event, mouse, active, count]
          · cases r.pressed <;> simp [enabled, event, mouse, active, count]
      · simp [event, count]
  · simp [enabled, count]

@[simp] theorem State.tapToggle_layers (s : State) : (s.tapToggle b r).layers = s.layers := by
  rw [State.tapToggle]
  dsimp only
  split
  · split <;> rfl
  · rfl

/-- Only a reset switches a layer. -/
theorem processAutoMouse_layers (quiet : resets b kb s r = false) : (processAutoMouse b kb r s).layers = s.layers := by
  rw [processAutoMouse]
  rw [resets] at quiet
  by_cases enabled : s.isEnabled = true
  · rw [if_neg (not_not.mpr enabled)]
    cases taken : branch b s.layer r with
    | skip => simp
    | toggle => cases r.pressed <;> simp
    | hold => simp
    | tapToggle => simp
    | other =>
      by_cases event : r.isEvent = true
      · by_cases mouse : isMouseRecord kb r = true
        · simp [event, mouse]
        · by_cases active : s.isAutoMouseActive b = true
          · simp [event, mouse, active]
          · have up : r.pressed = false := by simpa [enabled, taken, event, mouse, active] using quiet
            simp [event, mouse, active, up]
      · simp [event]
  · simp [enabled]

end

/-! ## Runs -/

/-- What can happen; `others` is what the rest of the firmware does to the layers, and the time. -/
inductive Event (K : Type) where
  | record (key : K) (r : Record)
  | enable (enable : Bool)
  | setLayer (layer : Nat)
  | resetTrigger (pressed : Bool)
  | toggle
  | layerOff
  | task (activation : Bool)
  | others (layers : Nat → Bool) (oneshotLayer now : Nat)

/-- The keys held whose press counted since the last reset -/
structure World (K : Type) where
  state : State
  counted : List K

variable {K : Type} [DecidableEq K]

def World.step (b : Build) (kb : Hook) (w : World K) : Event K → World K
  | .record key r =>
    ⟨processAutoMouse b kb r w.state,
      if r.pressed then
        if moves b kb w.state r then key :: w.counted else if resets b kb w.state r then [] else w.counted
      else w.counted.erase key⟩
  | .enable enable => ⟨w.state.setAutoMouseEnable enable, if w.state.isEnabled = enable then w.counted else []⟩
  | .setLayer layer => ⟨w.state.setAutoMouseLayer layer, if w.state.layer = layer then w.counted else []⟩
  | .resetTrigger pressed => ⟨w.state.resetTrigger pressed, if pressed then [] else w.counted⟩
  | .toggle => ⟨w.state.toggle, w.counted⟩
  | .layerOff => ⟨w.state.autoMouseLayerOff b, w.counted⟩
  | .task activation => ⟨w.state.task b activation, w.counted⟩
  | .others layers oneshotLayer now => ⟨{ w.state with layers, oneshotLayer, now }, w.counted⟩

/-- The tracker is the number of keys that hold the layer. -/
def Tracks (w : World K) : Prop := w.state.mouseKeyTracker = w.counted.length

/-- The tracker is right after the event, and the release of a key that did not count changes neither it nor the layers. -/
def Right (b : Build) (kb : Hook) (w : World K) (e : Event K) : Prop :=
  Tracks (w.step b kb e) ∧
    match e with
    | .record key r => r.pressed = false → key ∉ w.counted →
      (w.step b kb e).state.mouseKeyTracker = w.state.mouseKeyTracker ∧ (w.step b kb e).state.layers = w.state.layers
    | _ => True

/-- A press that counts finds room, and a release takes from the tracker what the press has added: it counts
if its press did, and otherwise it does not, or there is nothing to take. -/
def Fits (b : Build) (kb : Hook) (w : World K) : Event K → Prop
  | .record key r =>
    if r.pressed then moves b kb w.state r = true → w.counted.length < 127
    else if key ∈ w.counted then moves b kb w.state r = true
    else moves b kb w.state r = true → w.counted = []
  | _ => True

section
variable {b : Build} {kb : Hook} {w : World K} {e : Event K}

/-- The tracker is right, and no more than it can be. -/
structure Inv (w : World K) : Prop where
  tracks : Tracks w
  le : w.counted.length ≤ 127

theorem task_tracker (b : Build) (activation : Bool) (s : State) :
    (s.task b activation).mouseKeyTracker = s.mouseKeyTracker := by
  rw [State.task]
  split
  · rfl
  · dsimp only
    split
    · split <;> rfl
    · split <;> rfl

theorem Inv.record (h : Inv w) (key : K) (r : Record) :
    (Fits b kb w (.record key r) → Inv (w.step b kb (.record key r))) ∧
      (Fits b kb w (.record key r) ↔ Right b kb w (.record key r)) := by
  have after := @processAutoMouse_tracker b kb w.state r _ h.tracks h.le
  have le := h.le
  cases up : r.pressed with
  | true =>
    have iff : Fits b kb w (.record key r) ↔ Tracks (w.step b kb (.record key r)) := by
      rw [Fits, if_pos up, Tracks, World.step]
      dsimp only
      rw [after, if_pos up, if_pos up, Int.natCast_inj]
      cases moves b kb w.state r with
      | true =>
        simp only [if_true, List.length_cons, true_implies]
        split <;> omega
      | false => cases resets b kb w.state r <;> simp
    refine ⟨fun fits => ⟨iff.mp fits, ?_⟩, iff.trans (and_iff_left fun down => ?_).symm⟩
    · rw [Fits, if_pos up] at fits
      rw [World.step]
      dsimp only
      rw [if_pos up]
      split
      · rename_i moves
        exact fits moves
      · split
        · exact Nat.zero_le _
        · exact le
    · rw [up] at down
      cases down
  | false =>
    have quiet : resets b kb w.state r = false := by rw [resets, up, Bool.and_false]
    have next : (w.step b kb (.record key r)).counted = w.counted.erase key := by
      rw [World.step]
      simp [up]
    have tracker : (w.step b kb (.record key r)).state.mouseKeyTracker =
        ((if moves b kb w.state r then w.counted.length - 1 else w.counted.length : Nat) : Int) := by
      rw [World.step]
      dsimp only
      rw [after]
      simp [up, quiet]
    have layers : (w.step b kb (.record key r)).state.layers = w.state.layers := processAutoMouse_layers quiet
    by_cases mem : key ∈ w.counted
    · have some_key := List.length_pos_of_mem mem
      have iff : Fits b kb w (.record key r) ↔ Tracks (w.step b kb (.record key r)) := by
        rw [Fits, up, if_neg Bool.false_ne_true, if_pos mem, Tracks, tracker, next, List.length_erase_of_mem mem,
          Int.natCast_inj]
        split
        · rename_i moves
          exact iff_of_true moves rfl
        · rename_i still
          exact iff_of_false still (by omega)
      refine ⟨fun fits => ⟨iff.mp fits, ?_⟩, iff.trans (and_iff_left fun _ other => absurd mem other).symm⟩
      rw [next, List.length_erase_of_mem mem]
      omega
    · have same : w.counted.erase key = w.counted := List.erase_of_not_mem mem
      have iff : Fits b kb w (.record key r) ↔ Tracks (w.step b kb (.record key r)) := by
        rw [Fits, up, if_neg Bool.false_ne_true, if_neg mem, Tracks, tracker, next, same, Int.natCast_inj,
          ← List.length_eq_zero_iff]
        split
        · rename_i moves
          rw [imp_iff_right moves]
          omega
        · rename_i still
          exact iff_of_true (fun moves => absurd moves still) rfl
      refine ⟨fun fits => ⟨iff.mp fits, by rw [next, same]; exact le⟩, ?_⟩
      constructor
      · intro fits
        have tracks := iff.mp fits
        refine ⟨tracks, fun _ _ => ⟨?_, layers⟩⟩
        exact tracks.trans (by rw [next, same, h.tracks])
      · exact fun right => iff.mpr right.1

theorem Inv.step (h : Inv w) :
    (Fits b kb w e → Inv (w.step b kb e)) ∧ (Fits b kb w e ↔ Right b kb w e) := by
  have calm : ∀ {e : Event K}, Fits b kb w e → Inv (w.step b kb e) → (∀ key r, e ≠ .record key r) →
      (Fits b kb w e → Inv (w.step b kb e)) ∧ (Fits b kb w e ↔ Right b kb w e) := by
    intro e fits inv other
    refine ⟨fun _ => inv, iff_of_true fits ⟨inv.tracks, ?_⟩⟩
    cases e with
    | record key r => exact absurd rfl (other key r)
    | _ => trivial
  cases e with
  | record key r => exact h.record key r
  | enable enable =>
    refine calm trivial ?_ (by simp)
    rw [World.step, State.setAutoMouseEnable]
    split
    · exact h
    · exact ⟨rfl, Nat.zero_le _⟩
  | setLayer layer =>
    refine calm trivial ?_ (by simp)
    rw [World.step, State.setAutoMouseLayer]
    split
    · exact h
    · exact ⟨rfl, Nat.zero_le _⟩
  | resetTrigger pressed =>
    refine calm trivial ?_ (by simp)
    cases pressed with
    | true => exact ⟨rfl, Nat.zero_le _⟩
    | false => exact ⟨h.tracks, h.le⟩
  | toggle => exact calm trivial ⟨h.tracks, h.le⟩ (by simp)
  | layerOff =>
    refine calm trivial ?_ (by simp)
    rw [World.step, State.autoMouseLayerOff]
    split <;> exact ⟨h.tracks, h.le⟩
  | task activation => exact calm trivial ⟨(task_tracker b activation w.state).trans h.tracks, h.le⟩ (by simp)
  | others layers oneshotLayer now => exact calm trivial ⟨h.tracks, h.le⟩ (by simp)

end

/-- Nothing has been pressed. -/
def World.start (s : State) : World K := ⟨s.reset, []⟩

/-- In every run the tracker is the number of keys held that count, and the release of another key leaves
it alone, exactly when every press finds room and every release takes only what its press has added. -/
theorem tracks_iff (b : Build) (kb : Hook) (s : State) (events : List (Event K)) :
    Along (World.step b kb) (Right b kb) (World.start s) events ↔
      Along (World.step b kb) (Fits b kb) (World.start s) events := by
  have start : Inv (World.start s : World K) := ⟨rfl, Nat.zero_le _⟩
  exact (Along.congr Inv (fun _ _ h => h.step.2) (fun _ _ h => h.step.1) start).symm

/-- The default build -/
def defaults : Build := ⟨true, true, 5, 650, 200, 25⟩

/-- Enabled, with target layer 1 -/
def ready : State := ⟨true, 1, 0, 0, false, false, 0, fun _ => false, 0, 0⟩

/-- `MO(1)` is pressed, auto mouse is disabled and enabled again, a mouse button is pressed, and `MO(1)` released. -/
def resetWhileHeld : List (Event Nat) :=
  [.record 0 ⟨0x5221, 0, true, true⟩, .enable false, .enable true, .record 1 ⟨0xD1, 0, true, true⟩,
    .record 0 ⟨0x5221, 0, false, true⟩]

/-- The button is still held and the tracker is zero; the layer is switched off 650 ms later. -/
theorem held_button_lost :
    ¬ Along (World.step defaults fun _ => false) (Right defaults fun _ => false) (World.start ready) resetWhileHeld ∧
      (resetWhileHeld.foldl (World.step defaults fun _ => false) (World.start ready)).counted = [1] ∧
      (resetWhileHeld.foldl (World.step defaults fun _ => false) (World.start ready)).state.mouseKeyTracker = 0 ∧
      ((resetWhileHeld ++ [Event.others (fun layer => layer = 1) 0 1000, .task false]).foldl
        (World.step defaults fun _ => false) (World.start ready)).state.layers 1 = false := by
  refine ⟨fun right => ?_, by decide +kernel, by decide +kernel, by decide +kernel⟩
  have last : Tracks (resetWhileHeld.foldl (World.step defaults fun _ => false) (World.start ready)) :=
    right.2.2.2.2.1.1
  revert last
  unfold Tracks
  decide +kernel

omit [DecidableEq K] in
/-- Keys that hold the layer keep it on: neither the task nor a record switches it off. -/
theorem held_keeps_layer (b : Build) (kb : Hook) (r : Record) (activation : Bool) {w : World K} (tracks : Tracks w)
    (held : w.counted ≠ []) (on : w.state.layers w.state.layer = true) :
    (w.state.task b activation).layers w.state.layer = true ∧
      (processAutoMouse b kb r w.state).layers w.state.layer = true := by
  have some_key : w.state.mouseKeyTracker ≠ 0 := by
    rw [tracks]
    exact_mod_cast List.length_pos_iff.mpr held |>.ne'
  have active : ∀ activation, { w.state with isActivated := activation }.isAutoMouseActive b = true := by
    intro activation
    simp [State.isAutoMouseActive, some_key]
  constructor
  · rw [State.task]
    split
    · exact on
    · dsimp only
      rw [if_pos (active activation)]
      simp [on]
  · have still : w.state.isAutoMouseActive b = true := active w.state.isActivated
    have quiet : resets b kb w.state r = false := by simp [resets, still]
    rw [processAutoMouse_layers quiet, on]

end QmkFirmware.Pointing
