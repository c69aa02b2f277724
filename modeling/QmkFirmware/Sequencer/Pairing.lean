import QmkFirmware.Sequencer.Code
import QmkFirmware.Lib.Run

/-!
# Notes and their ends

The release phase computes the notes to stop from the settings it finds. They are those
that the attack phase started as long as the notes of a step differ, and as long as nothing
takes a track that is started, and not yet stopped, out of the step, gives it another note
or ends the step early.
-/

namespace QmkFirmware.Sequencer
open Lib

/-- The last message about the note was its note-on. -/
def sounding : List Message → BitVec 8 → Bool
  | [], _ => false
  | .noteOn n :: sent, note => decide (n = note) || sounding sent note
  | .noteOff n :: sent, note => decide (n ≠ note) && sounding sent note

/-- No note-on was sent for a note that was sounding. -/
def Alternate : List Message → Prop
  | [] => True
  | .noteOn n :: sent => sounding sent n = false ∧ Alternate sent
  | .noteOff _ :: sent => Alternate sent

/-- Every note-on has its note-off before the next one, and nothing sounds while the
sequencer is off or pauses. -/
structure NotesPaired (w : World) : Prop where
  alternate : Alternate w.sent
  silent : w.config.enabled = false ∨ w.state.phase = .pause → ∀ note, sounding w.sent note = false

/-- The track had its turn in this step and its note was not yet stopped. -/
def Started (w : World) (track : Nat) : Prop :=
  w.config.enabled = true ∧
    match w.state.phase with
    | .attack => track < w.state.currentTrack
    | .release => track ≤ w.state.currentTrack
    | .pause => False

/-- The release phase has yet to stop the track's note. -/
def Pending (b : Build) (w : World) (track : Nat) : Prop :=
  Started w track ∧ w.isStepOnForTrack b w.state.currentStep track = true

/-- Without the active tracks the same notes are pending. -/
def KeepsInactive (b : Build) (w : World) : Prop :=
  ∀ track, Pending b w track → ∃ other, Pending b w other ∧ w.isTrackActive other = false ∧ w.note other = w.note track

/-- What must not happen between a note-on and its note-off. -/
def Careful (b : Build) (w : World) : Event → Prop
  | .task =>
    w.state.phase = .attack → w.state.currentTrack * b.trackThrottle ≤ w.timerElapsed w.state.timer →
      w.isStepOnForTrack b w.state.currentStep w.state.currentTrack = true →
      ∀ track, Pending b w track → w.note track ≠ w.note w.state.currentTrack
  | .on | .off | .toggle => ∀ track, ¬ Pending b w track
  | .setTrackNotes trackNotes => ∀ track, Pending b w track →
    ∃ other, Pending b w other ∧ w.midi.computeNote (trackNotes other) = w.note track
  | .midi config => ∀ track, Pending b w track →
    ∃ other, Pending b w other ∧ config.computeNote (w.config.trackNotes other) = w.note track
  | .setStep step value => value = false → step = w.state.currentStep → KeepsInactive b w
  | .toggleStep step => w.isStepOn b step = true → step = w.state.currentStep → KeepsInactive b w
  | .setAllSteps value => value = false → KeepsInactive b w
  | _ => True

/-- What sounds is pending. -/
structure Inv (b : Build) (w : World) : Prop where
  track_lt : w.state.currentTrack < b.tracks
  paused : w.state.phase = .pause → w.state.currentTrack = 0
  covered : ∀ note, sounding w.sent note = true → ∃ track, Pending b w track ∧ w.note track = note
  alternate : Alternate w.sent

section Step

variable {b : Build} {w w' : World}

theorem inv_initial : Inv b .initial :=
  ⟨b.tracks_pos, fun _ => rfl, fun _ h => absurd h Bool.false_ne_true, trivial⟩

theorem Inv.quiet (h : Inv b w) (none : ∀ track, ¬ Pending b w track) (note : BitVec 8) : sounding w.sent note = false := by
  apply Bool.eq_false_of_not_eq_true
  intro on
  obtain ⟨track, pending, -⟩ := h.covered note on
  exact none track pending

theorem Inv.paired (h : Inv b w) : NotesPaired w := by
  refine ⟨h.alternate, fun idle => h.quiet ?_⟩
  rintro track ⟨⟨on, started⟩, -⟩
  rcases idle with off | pause
  · rw [off] at on
    cases on
  · rw [pause] at started
    exact started

/-- A world with nothing pending, after one with nothing pending -/
theorem Inv.restart (h : Inv b w) (none : ∀ track, ¬ Pending b w track) (sent : w'.sent = w.sent)
    (track_lt : w'.state.currentTrack < b.tracks) (paused : w'.state.phase = .pause → w'.state.currentTrack = 0) :
    Inv b w' := by
  refine ⟨track_lt, paused, fun note on => ?_, sent ▸ h.alternate⟩
  rw [sent, h.quiet none note] at on
  cases on

/-- A change of the settings, or of the time -/
theorem Inv.change (h : Inv b w) (sent : w'.sent = w.sent) (track : w'.state.currentTrack = w.state.currentTrack)
    (phase : w'.state.phase = w.state.phase)
    (keeps : ∀ track, Pending b w track → ∃ other, Pending b w' other ∧ w'.note other = w.note track) : Inv b w' := by
  refine ⟨by rw [track]; exact h.track_lt, by rw [track, phase]; exact h.paused, fun note on => ?_, sent ▸ h.alternate⟩
  rw [sent] at on
  obtain ⟨t, pending, rfl⟩ := h.covered note on
  exact keeps t pending

/-- The active tracks are put in or taken out of some steps. -/
theorem Inv.changeSteps (h : Inv b w) {changed : Nat → Prop} [DecidablePred changed] {value : Bool}
    (keeps : value = false → changed w.state.currentStep.toNat → KeepsInactive b w) :
    Inv b { w with config := { w.config with
      steps := fun i => if changed i then w.stepWith i value else w.config.steps i } } := by
  refine h.change rfl rfl rfl fun track pending => ?_
  by_cases here : changed w.state.currentStep.toNat
  · cases value with
    | true =>
      refine ⟨track, ⟨pending.1, ?_⟩, rfl⟩
      have on := pending.2
      simp only [World.isStepOnForTrack, Bool.and_eq_true] at on ⊢
      rw [if_pos here, World.stepWith, if_pos rfl, BitVec.getLsbD_or, on.2]
      exact ⟨on.1, rfl⟩
    | false =>
      obtain ⟨other, pending', inactive, note⟩ := keeps rfl here track pending
      refine ⟨other, ⟨pending'.1, ?_⟩, note⟩
      have on := pending'.2
      simp only [World.isStepOnForTrack, Bool.and_eq_true] at on ⊢
      rw [if_pos here, World.stepWith, if_neg Bool.false_ne_true, BitVec.getLsbD_and, on.2, BitVec.getLsbD_not,
        show w.state.activeTracks.getLsbD other = false from inactive]
      have inside : other < 8 := BitVec.lt_of_getLsbD on.2
      exact ⟨on.1, by simpa using inside⟩
  · refine ⟨track, ⟨pending.1, ?_⟩, rfl⟩
    have on := pending.2
    simp only [World.isStepOnForTrack] at on ⊢
    rwa [if_neg here]

theorem Inv.setStep (h : Inv b w) {step : BitVec 8} {value : Bool}
    (keeps : value = false → step = w.state.currentStep → KeepsInactive b w) : Inv b (w.setStep b step value) := by
  rw [World.setStep]
  split
  · exact h.changeSteps fun off here => keeps off (BitVec.eq_of_toNat_eq here.symm)
  · exact h

theorem send_if (c : Bool) (m : Message) : (if c then { w with sent := m :: w.sent } else w) =
    { w with sent := if c then m :: w.sent else w.sent } := by
  cases c <;> rfl

/-- The track whose note the phase stops is not needed to cover the others. -/
theorem Inv.stopped (h : Inv b w) (release : w.state.phase = .release) (note : BitVec 8)
    (on : sounding (if w.isStepOnForTrack b w.state.currentStep w.state.currentTrack then
      .noteOff (w.note w.state.currentTrack) :: w.sent else w.sent) note = true) :
    ∃ track < w.state.currentTrack, Pending b w track ∧ w.note track = note := by
  have still : sounding w.sent note = true ∧
      (w.isStepOnForTrack b w.state.currentStep w.state.currentTrack = true → w.note w.state.currentTrack ≠ note) := by
    split at on
    case isTrue =>
      simp only [sounding, Bool.and_eq_true, decide_eq_true_eq] at on
      exact ⟨on.2, fun _ => on.1⟩
    case isFalse off => exact ⟨on, fun is => absurd is off⟩
  obtain ⟨track, pending, rfl⟩ := h.covered note still.1
  have le : track ≤ w.state.currentTrack := by
    have started := pending.1.2
    rwa [release] at started
  refine ⟨track, Nat.lt_of_le_of_ne le ?_, pending, rfl⟩
  rintro rfl
  exact still.2 pending.2 rfl

theorem alternate_noteOff (h : Alternate w.sent) (c : Bool) (n : BitVec 8) :
    Alternate (if c then .noteOff n :: w.sent else w.sent) := by
  cases c <;> exact h

theorem Inv.phaseRelease (h : Inv b w) (release : w.state.phase = .release) : Inv b (w.phaseRelease b) := by
  unfold World.phaseRelease
  split
  · exact h
  have stopped := h.stopped release
  have alternate := alternate_noteOff h.alternate (w.isStepOnForTrack b w.state.currentStep w.state.currentTrack)
    (w.note w.state.currentTrack)
  simp only [send_if]
  split
  case isTrue more =>
    refine ⟨Nat.lt_of_le_of_lt (Nat.sub_le _ _) h.track_lt, fun pause => ?_, fun note on => ?_, alternate⟩
    · simp only [release] at pause
      cases pause
    · obtain ⟨track, lt, pending, rfl⟩ := stopped note on
      refine ⟨track, ⟨⟨pending.1.1, ?_⟩, pending.2⟩, rfl⟩
      simp only [release]
      omega
  case isFalse last =>
    have zero := Nat.eq_zero_of_not_pos last
    refine ⟨h.track_lt, fun _ => zero, fun note on => ?_, alternate⟩
    obtain ⟨track, lt, -⟩ := stopped note on
    omega

theorem Inv.phasePause (h : Inv b w) (pause : w.state.phase = .pause) : Inv b (w.phasePause b) := by
  unfold World.phasePause
  split
  · exact h
  · refine h.restart (fun track pending => ?_) rfl h.track_lt fun _ => h.paused pause
    have started := pending.1.2
    rwa [pause] at started

/-- A note starts only if it does not sound, and it is pending from then on. -/
theorem Inv.startTrack (h : Inv b w) (enabled : w.config.enabled = true) (attack : w.state.phase = .attack)
    (fresh : w.isStepOnForTrack b w.state.currentStep w.state.currentTrack = true →
      ∀ track, Pending b w track → w.note track ≠ w.note w.state.currentTrack) :
    Inv b (if w.state.currentTrack < b.tracks - 1 then
      { w with
        state := { w.state with currentTrack := w.state.currentTrack + 1 }
        sent := if w.isStepOnForTrack b w.state.currentStep w.state.currentTrack then
          .noteOn (w.note w.state.currentTrack) :: w.sent else w.sent }
      else
      { w with
        state := { w.state with phase := .release }
        sent := if w.isStepOnForTrack b w.state.currentStep w.state.currentTrack then
          .noteOn (w.note w.state.currentTrack) :: w.sent else w.sent }) := by
  have lt := h.track_lt
  have before {track : Nat} (pending : Pending b w track) : track < w.state.currentTrack := by
    have started := pending.1.2
    rwa [attack] at started
  have alternate : Alternate (if w.isStepOnForTrack b w.state.currentStep w.state.currentTrack then
      .noteOn (w.note w.state.currentTrack) :: w.sent else w.sent) := by
    split
    case isTrue on =>
      refine ⟨?_, h.alternate⟩
      apply Bool.eq_false_of_not_eq_true
      intro sounds
      obtain ⟨track, pending, same⟩ := h.covered _ sounds
      exact fresh on track pending same
    case isFalse => exact h.alternate
  have covered (note : BitVec 8) (on : sounding (if w.isStepOnForTrack b w.state.currentStep w.state.currentTrack then
      .noteOn (w.note w.state.currentTrack) :: w.sent else w.sent) note = true) :
      ∃ track ≤ w.state.currentTrack, w.isStepOnForTrack b w.state.currentStep track = true ∧ w.note track = note := by
    have old (sounds : sounding w.sent note = true) : ∃ track ≤ w.state.currentTrack,
        w.isStepOnForTrack b w.state.currentStep track = true ∧ w.note track = note := by
      obtain ⟨track, pending, rfl⟩ := h.covered note sounds
      exact ⟨track, (before pending).le, pending.2, rfl⟩
    split at on
    case isTrue is =>
      simp only [sounding, Bool.or_eq_true, decide_eq_true_eq] at on
      rcases on with rfl | sounds
      · exact ⟨_, Nat.le_refl _, is, rfl⟩
      · exact old sounds
    case isFalse => exact old on
  split
  case isTrue more =>
    refine ⟨by simp only; omega, fun pause => ?_, fun note on => ?_, alternate⟩
    · simp only [attack] at pause
      cases pause
    · obtain ⟨track, le, is, rfl⟩ := covered note on
      refine ⟨track, ⟨⟨enabled, ?_⟩, is⟩, rfl⟩
      simp only [attack]
      omega
  case isFalse =>
    refine ⟨lt, fun pause => ?_, fun note on => ?_, alternate⟩
    · cases pause
    · obtain ⟨track, le, is, rfl⟩ := covered note on
      exact ⟨track, ⟨⟨enabled, le⟩, is⟩, rfl⟩

theorem Inv.phaseAttack (h : Inv b w) (enabled : w.config.enabled = true) (attack : w.state.phase = .attack)
    (fresh : w.state.currentTrack * b.trackThrottle ≤ w.timerElapsed w.state.timer →
      w.isStepOnForTrack b w.state.currentStep w.state.currentTrack = true →
      ∀ track, Pending b w track → w.note track ≠ w.note w.state.currentTrack) : Inv b (w.phaseAttack b) := by
  have rest (v : World) (hv : Inv b v) (enabled : v.config.enabled = true) (attack : v.state.phase = .attack)
      (fresh : v.state.currentTrack * b.trackThrottle ≤ v.timerElapsed v.state.timer →
        v.isStepOnForTrack b v.state.currentStep v.state.currentTrack = true →
        ∀ track, Pending b v track → v.note track ≠ v.note v.state.currentTrack) :
      Inv b (if v.timerElapsed v.state.timer < v.state.currentTrack * b.trackThrottle then v
        else
          let w :=
            if v.isStepOnForTrack b v.state.currentStep v.state.currentTrack then
              { v with sent := .noteOn (v.note v.state.currentTrack) :: v.sent }
            else v
          if w.state.currentTrack < b.tracks - 1 then
            { w with state := { w.state with currentTrack := w.state.currentTrack + 1 } }
          else { w with state := { w.state with phase := .release } }) := by
    split
    case isTrue => exact hv
    case isFalse elapsed =>
      have started := hv.startTrack enabled attack (fresh (Nat.not_lt.1 elapsed))
      simp only [send_if]
      exact started
  unfold World.phaseAttack
  split
  case isTrue zero =>
    -- the timer is set before the first track, when nothing is pending
    refine rest _ (h.change rfl rfl rfl fun track pending => ⟨track, pending, rfl⟩) enabled attack
      fun _ _ track pending => ?_
    have started := pending.1.2
    simp only [attack, zero] at started
    exact absurd started (Nat.not_lt_zero track)
  case isFalse => exact rest w h enabled attack fresh

theorem Inv.task (h : Inv b w) (careful : Careful b w .task) : Inv b (w.task b) := by
  unfold World.task
  split
  · exact h
  case isFalse enabled =>
    rw [Bool.not_eq_false] at enabled
    cases phase : w.state.phase with
    | attack =>
      simp only [phase, reduceCtorEq, if_false, if_true]
      exact h.phaseAttack enabled phase (careful phase)
    | release =>
      have still : (w.phaseRelease b).state.phase ≠ .attack := by
        unfold World.phaseRelease
        simp only [send_if]
        split_ifs <;> simp [phase]
      simp only [phase, reduceCtorEq, if_false, if_true, still]
      exact h.phaseRelease phase
    | pause =>
      have paused := h.phasePause phase
      have first : (w.phasePause b).config.enabled = true ∧ (w.phasePause b).state.currentTrack = 0 ∧
          (w.phasePause b).state.phase ≠ .release := by
        unfold World.phasePause
        split
        · exact ⟨enabled, h.paused phase, by simp [phase]⟩
        · exact ⟨enabled, h.paused phase, by simp⟩
      simp only [if_true, first.2.2, if_false]
      split
      case isTrue attack =>
        refine paused.phaseAttack first.1 attack fun _ _ track pending => ?_
        have started := pending.1.2
        simp only [attack, first.2.1] at started
        exact absurd started (Nat.not_lt_zero track)
      case isFalse => exact paused

/-- Every event that is careful keeps the invariant. -/
theorem Inv.step (h : Inv b w) {event : Event} (careful : Careful b w event) : Inv b (w.step b event) := by
  have same {v : World} (sent : v.sent = w.sent) (track : v.state.currentTrack = w.state.currentTrack)
      (phase : v.state.phase = w.state.phase) (keeps : ∀ track, Pending b w track → Pending b v track ∧ v.note track = w.note track) :
      Inv b v :=
    h.change sent track phase fun track pending => ⟨track, keeps track pending⟩
  cases event with
  | task => exact h.task careful
  | wait ms => exact same rfl rfl rfl fun _ pending => ⟨pending, rfl⟩
  | on => exact h.restart careful rfl b.tracks_pos fun _ => rfl
  | off => exact h.restart careful rfl h.track_lt h.paused
  | toggle =>
    simp only [World.step, World.toggle]
    split
    · exact h.restart careful rfl h.track_lt h.paused
    · exact h.restart careful rfl b.tracks_pos fun _ => rfl
  | setTrackNotes trackNotes =>
    refine h.change rfl rfl rfl fun track pending => ?_
    obtain ⟨other, pending', note⟩ := careful track pending
    have inside : other < b.tracks := by
      have started := pending'.1.2
      have lt := h.track_lt
      split at started
      · exact Nat.lt_trans started lt
      · exact Nat.lt_of_le_of_lt started lt
      · exact absurd started id
    refine ⟨other, pending', ?_⟩
    simp only [World.step, World.setTrackNotes, World.note, if_pos inside]
    exact note
  | setTrackActivation track value => exact same rfl rfl rfl fun _ pending => ⟨pending, rfl⟩
  | toggleTrackActivation track => exact same rfl rfl rfl fun _ pending => ⟨pending, rfl⟩
  | toggleSingleActiveTrack track => exact same rfl rfl rfl fun _ pending => ⟨pending, rfl⟩
  | setStep step value => exact h.setStep careful
  | toggleStep step =>
    refine h.setStep fun off here => careful ?_ here
    simpa using off
  | setAllSteps value => exact h.changeSteps fun off _ => careful off
  | setTempo tempo =>
    simp only [World.step, World.setTempo]
    split
    · exact same rfl rfl rfl fun _ pending => ⟨pending, rfl⟩
    · exact h
  | setResolution resolution =>
    simp only [World.step, World.setResolution]
    split
    · exact same rfl rfl rfl fun _ pending => ⟨pending, rfl⟩
    · exact h
  | midi config => exact h.change rfl rfl rfl careful

end Step

/-- **Notes are paired** in every run of careful steps. -/
theorem notes_paired {b : Build} {events : List Event} (careful : Along (World.step b) (Careful b) .initial events) :
    NotesPaired (events.foldl (World.step b) .initial) := by
  have inv : Inv b _ := careful.invariant (Inv b) (fun _ _ h careful => h.step careful) inv_initial
  exact inv.paired

theorem default_steps_pos : 0 < 16 := by decide

/-- The default sizes, but for the number of tracks -/
def ofTracks (tracks : Nat) (pos : 0 < tracks) (le : tracks ≤ 8) : Build := ⟨16, tracks, 3, 30, default_steps_pos, pos, le⟩

def oneTrack : Build := ofTracks 1 Nat.one_pos (by decide)

/-- The first track is put into the first step, and the sequencer starts. -/
def startFirst : List Event :=
  [.setTrackNotes fun _ => 0x7103, .setTrackActivation 0 true, .setStep 0 true, .on, .task]

theorem notes_paired_first :
    NotesPaired ((startFirst ++ [Event.wait 30, .task]).foldl (World.step oneTrack) .initial) := by
  apply notes_paired
  have idle {w : World} {track : Nat} (pending : Pending oneTrack w track) (off : w.config.enabled = false) : False := by
    have on := pending.1.1
    rw [off] at on
    cases on
  refine ⟨fun track pending => (idle pending rfl).elim, trivial, fun off => absurd off (by decide),
    fun track pending => idle pending rfl, fun _ _ _ track pending => ?_, trivial, fun attack => ?_, trivial⟩
  · exact absurd pending.1.2 (Nat.not_lt_zero track)
  · exact absurd attack (by decide)

/-- The sequencer is switched off, or the step is cleared, while the note sounds; and two tracks have the same note. -/
theorem notes_left_sounding :
    ¬ NotesPaired ((startFirst ++ [Event.off]).foldl (World.step oneTrack) .initial) ∧
    ¬ NotesPaired ((startFirst ++ [Event.setStep 0 false, .wait 30, .task]).foldl (World.step oneTrack) .initial) ∧
    ¬ NotesPaired (([Event.setTrackActivation 1 true] ++ startFirst ++ [Event.wait 3, .task]).foldl
      (World.step (ofTracks 2 (by decide) (by decide))) .initial) := by
  refine ⟨fun h => ?_, fun h => ?_, fun h => ?_⟩
  · exact absurd (h.silent (Or.inl rfl) 48) (by decide)
  · exact absurd (h.silent (Or.inr (by decide)) 48) (by decide)
  · exact absurd h.alternate.1 (by decide)

end QmkFirmware.Sequencer
