import Mathlib

/-!
# The sequencer

`sequencer.c`: a step's notes are started one track after the other, stopped in the
opposite order, and the rest of the step is a pause. The notes are MIDI notes, and the
world keeps the messages that were sent.
-/

namespace QmkFirmware.Sequencer

/-- `SEQUENCER_STEPS`, `SEQUENCER_TRACKS`, `SEQUENCER_TRACK_THROTTLE` and `SEQUENCER_PHASE_RELEASE_TIMEOUT` -/
structure Build where
  steps : Nat
  tracks : Nat
  trackThrottle : Nat
  phaseReleaseTimeout : Nat
  steps_pos : 0 < steps
  tracks_pos : 0 < tracks
  tracks_le : tracks ≤ 8

/-- `sequencer_phase_t` -/
inductive Phase where
  | attack | release | pause
  deriving DecidableEq, Repr

/-- `sequencer_config_t`; a step has a bit for each track. -/
structure Config where
  enabled : Bool
  steps : Nat → BitVec 8
  trackNotes : Nat → BitVec 16
  tempo : BitVec 8
  resolution : Nat

/-- `sequencer_state_t` -/
structure State where
  activeTracks : BitVec 8
  currentTrack : Nat
  currentStep : BitVec 8
  timer : BitVec 16
  phase : Phase

/-- The fields of `midi_config_t` that make a note -/
structure MidiConfig where
  octave : BitVec 4
  transpose : BitVec 4

/-- `process_midi_basic_noteon` and `process_midi_basic_noteoff` -/
inductive Message where
  | noteOn (note : BitVec 8)
  | noteOff (note : BitVec 8)
  deriving DecidableEq, Repr

/-- The program's variables, the time in milliseconds, and what was sent, the last message first. -/
structure World where
  config : Config
  state : State
  midi : MidiConfig
  now : Nat
  sent : List Message

/-- `midi_compute_note`; the first note is `QK_MIDI_NOTE_C_0`. -/
def MidiConfig.computeNote (m : MidiConfig) (keycode : BitVec 16) : BitVec 8 :=
  BitVec.ofInt 8 (12 * m.octave.toNat + ((keycode.toNat : Int) - 0x7103) + m.transpose.toInt)

/-- `get_beat_duration` -/
def getBeatDuration (tempo : BitVec 8) : Nat := if tempo = 0 then 60000 / 60 else 60000 / tempo.toNat

/-- `get_step_duration` -/
def getStepDuration (tempo : BitVec 8) (resolution : Nat) : Nat :=
  let isBinary := resolution % 2 = 0
  let binarySteps := 2 <<< (resolution / 2) % 2 ^ 8
  let binaryStepDuration := getBeatDuration tempo * 4 / binarySteps % 2 ^ 16
  if isBinary then binaryStepDuration else 2 * binaryStepDuration / 3

namespace World

/-- `timer_elapsed` -/
def timerElapsed (w : World) (last : BitVec 16) : Nat := (BitVec.ofNat 16 w.now - last).toNat

/-! ## Settings -/

/-- `sequencer_on` -/
def on (w : World) : World :=
  { w with
    config := { w.config with enabled := true }
    state := { w.state with currentTrack := 0, currentStep := 0, timer := BitVec.ofNat 16 w.now, phase := .attack } }

/-- `sequencer_off` -/
def off (w : World) : World :=
  { w with
    config := { w.config with enabled := false }
    state := { w.state with currentStep := 0 } }

/-- `sequencer_toggle` -/
def toggle (w : World) : World := if w.config.enabled then w.off else w.on

/-- `sequencer_set_track_notes` -/
def setTrackNotes (b : Build) (w : World) (trackNotes : Nat → BitVec 16) : World :=
  { w with config := { w.config with
      trackNotes := fun i => if i < b.tracks then trackNotes i else w.config.trackNotes i } }

/-- `is_sequencer_track_active` -/
def isTrackActive (w : World) (track : Nat) : Bool := w.state.activeTracks.getLsbD track

/-- `sequencer_set_track_activation` -/
def setTrackActivation (w : World) (track : Nat) (value : Bool) : World :=
  let activeTracks :=
    if value then w.state.activeTracks ||| (1#8 <<< track) else w.state.activeTracks &&& ~~~(1#8 <<< track)
  { w with state := { w.state with activeTracks } }

/-- `sequencer_toggle_track_activation` -/
def toggleTrackActivation (w : World) (track : Nat) : World := w.setTrackActivation track (!w.isTrackActive track)

/-- `sequencer_toggle_single_active_track` -/
def toggleSingleActiveTrack (w : World) (track : Nat) : World :=
  { w with state := { w.state with activeTracks := if w.isTrackActive track then 0 else 1#8 <<< track } }

/-- `is_sequencer_step_on` -/
def isStepOn (b : Build) (w : World) (step : BitVec 8) : Bool :=
  decide (step.toNat < b.steps) && decide (w.config.steps step.toNat &&& w.state.activeTracks ≠ 0)

/-- `is_sequencer_step_on_for_track` -/
def isStepOnForTrack (b : Build) (w : World) (step : BitVec 8) (track : Nat) : Bool :=
  decide (step.toNat < b.steps) && (w.config.steps step.toNat).getLsbD track

/-- A step with the active tracks put in or taken out. -/
def stepWith (w : World) (step : Nat) (value : Bool) : BitVec 8 :=
  if value then w.config.steps step ||| w.state.activeTracks else w.config.steps step &&& ~~~w.state.activeTracks

/-- `sequencer_set_step` -/
def setStep (b : Build) (w : World) (step : BitVec 8) (value : Bool) : World :=
  if step.toNat < b.steps then
    { w with config := { w.config with
        steps := fun i => if i = step.toNat then w.stepWith i value else w.config.steps i } }
  else w

/-- `sequencer_toggle_step` -/
def toggleStep (b : Build) (w : World) (step : BitVec 8) : World := w.setStep b step (!w.isStepOn b step)

/-- `sequencer_set_all_steps`; its loop counts in eight bits, and does not end with 256 steps. -/
def setAllSteps (b : Build) (w : World) (value : Bool) : World :=
  { w with config := { w.config with
      steps := fun i => if i < b.steps then w.stepWith i value else w.config.steps i } }

/-- `sequencer_set_tempo` -/
def setTempo (w : World) (tempo : BitVec 8) : World :=
  if tempo ≠ 0 then { w with config := { w.config with tempo } } else w

/-- `sequencer_set_resolution`; there are nine resolutions. -/
def setResolution (w : World) (resolution : Nat) : World :=
  if resolution < 9 then { w with config := { w.config with resolution } } else w

/-! ## The phases -/

/-- The note of a track -/
def note (w : World) (track : Nat) : BitVec 8 := w.midi.computeNote (w.config.trackNotes track)

/-- `sequencer_phase_attack` -/
def phaseAttack (b : Build) (w : World) : World :=
  let w := if w.state.currentTrack = 0 then { w with state := { w.state with timer := BitVec.ofNat 16 w.now } } else w
  if w.timerElapsed w.state.timer < w.state.currentTrack * b.trackThrottle then w
  else
    let w :=
      if w.isStepOnForTrack b w.state.currentStep w.state.currentTrack then
        { w with sent := .noteOn (w.note w.state.currentTrack) :: w.sent }
      else w
    if w.state.currentTrack < b.tracks - 1 then
      { w with state := { w.state with currentTrack := w.state.currentTrack + 1 } }
    else { w with state := { w.state with phase := .release } }

/-- `sequencer_phase_release` -/
def phaseRelease (b : Build) (w : World) : World :=
  if w.timerElapsed w.state.timer < b.phaseReleaseTimeout + w.state.currentTrack * b.trackThrottle then w
  else
    let w :=
      if w.isStepOnForTrack b w.state.currentStep w.state.currentTrack then
        { w with sent := .noteOff (w.note w.state.currentTrack) :: w.sent }
      else w
    if 0 < w.state.currentTrack then
      { w with state := { w.state with currentTrack := w.state.currentTrack - 1 } }
    else { w with state := { w.state with phase := .pause } }

/-- `sequencer_phase_pause` -/
def phasePause (b : Build) (w : World) : World :=
  if w.timerElapsed w.state.timer < getStepDuration w.config.tempo w.config.resolution then w
  else { w with state := { w.state with currentStep := BitVec.ofNat 8 ((w.state.currentStep.toNat + 1) % b.steps), phase := .attack } }

/-- `sequencer_task` -/
def task (b : Build) (w : World) : World :=
  if w.config.enabled = false then w
  else
    let w := if w.state.phase = .pause then w.phasePause b else w
    let w := if w.state.phase = .release then w.phaseRelease b else w
    if w.state.phase = .attack then w.phaseAttack b else w

end World

/-! ## Runs -/

/-- What can happen; `midi` is a MIDI key that changes the octave or the transposition. -/
inductive Event where
  | task
  | wait (ms : Nat)
  | on
  | off
  | toggle
  | setTrackNotes (trackNotes : Nat → BitVec 16)
  | setTrackActivation (track : Nat) (value : Bool)
  | toggleTrackActivation (track : Nat)
  | toggleSingleActiveTrack (track : Nat)
  | setStep (step : BitVec 8) (value : Bool)
  | toggleStep (step : BitVec 8)
  | setAllSteps (value : Bool)
  | setTempo (tempo : BitVec 8)
  | setResolution (resolution : Nat)
  | midi (config : MidiConfig)

def World.step (b : Build) (w : World) : Event → World
  | .task => w.task b
  | .wait ms => { w with now := w.now + ms }
  | .on => w.on
  | .off => w.off
  | .toggle => w.toggle
  | .setTrackNotes trackNotes => w.setTrackNotes b trackNotes
  | .setTrackActivation track value => w.setTrackActivation track value
  | .toggleTrackActivation track => w.toggleTrackActivation track
  | .toggleSingleActiveTrack track => w.toggleSingleActiveTrack track
  | .setStep step value => w.setStep b step value
  | .toggleStep step => w.toggleStep b step
  | .setAllSteps value => w.setAllSteps b value
  | .setTempo tempo => w.setTempo tempo
  | .setResolution resolution => w.setResolution resolution
  | .midi config => { w with midi := config }

/-- The initial values, with `midi_init`'s: the second octave. -/
def World.initial : World where
  config := ⟨false, fun _ => 0, fun _ => 0, 60, 2⟩
  state := ⟨0, 0, 0, 0, .attack⟩
  midi := ⟨4, 0⟩
  now := 0
  sent := []

end QmkFirmware.Sequencer
