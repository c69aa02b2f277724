import Mathlib
import QmkFirmware.Lib.Run
import QmkFirmware.Midi.Delivery

/-!
# Keys that play notes

`process_midi.c`: a key starts the note that its tone has in the octave and the
transposition that are set, and the note it started is remembered, so that the key ends
that note and not the one that its tone has by then. A receiver is left with no note
sounding as long as the channel stays while a key is held and a tone that is held is
not pressed again as another note.
-/

namespace QmkFirmware.Midi
open Lib

def MIDI_INVALID_NOTE : Byte := 0xFF
def MIDI_TONE_MIN : Nat := 0x7103
def MIDI_TONE_MAX : Nat := 0x714A
def MIDI_OCTAVE_MIN : Nat := 0x714B
def QK_MIDI_OCTAVE_2 : Nat := 0x714F
def MIDI_OCTAVE_MAX : Nat := 0x7154
def MIDI_TRANSPOSE_MIN : Nat := 0x7157
def QK_MIDI_TRANSPOSE_0 : Nat := 0x715D
def MIDI_TRANSPOSE_MAX : Nat := 0x7163
def MIDI_VELOCITY_MIN : Nat := 0x7166
def MIDI_VELOCITY_MAX : Nat := 0x7170
def MIDI_CHANNEL_MIN : Nat := 0x7173
def MIDI_CHANNEL_MAX : Nat := 0x7182

/-- `midi_config` -/
structure MidiConfig where
  octave : Nat
  transpose : Int
  velocity : Nat
  channel : BitVec 4
  modulationInterval : Nat

/-- The variables of `process_midi.c`: `tone_status[0]` are the notes, `tone_status[1]` the counts of the keys. -/
structure Tones where
  config : MidiConfig
  note : Nat → Byte
  count : Nat → Byte
  modulation : Int
  modulationStep : Int

/-- `midi_init` -/
def midiInit : Tones where
  config := ⟨QK_MIDI_OCTAVE_2 - MIDI_OCTAVE_MIN, 0, 127, 0, 8⟩
  note _ := MIDI_INVALID_NOTE
  count _ := 0
  modulation := 0
  modulationStep := 0

/-- `midi_compute_note` -/
def midiComputeNote (config : MidiConfig) (keycode : Nat) : Byte :=
  BitVec.ofInt 8 (12 * config.octave + (keycode - MIDI_TONE_MIN : Nat) + config.transpose)

/-- `compute_velocity` -/
def computeVelocity (setting : Nat) : Nat := setting * (128 / (MIDI_VELOCITY_MAX - MIDI_VELOCITY_MIN))

/-- `config.channel` as an argument -/
def MidiConfig.chan (config : MidiConfig) : Byte := config.channel.setWidth 8

/-- The keys for the controllers that are on while they are held, with their numbers -/
def pedals : List (Nat × Byte) := [(0x7186, 0x40), (0x7187, 0x41), (0x7188, 0x42), (0x7189, 0x43), (0x718A, 0x44)]

/-- `process_midi` with what it changes of `midi_config`, of a key that is pressed -/
def configKey (config : MidiConfig) (keycode : Nat) : MidiConfig :=
  if MIDI_OCTAVE_MIN ≤ keycode ∧ keycode ≤ MIDI_OCTAVE_MAX then { config with octave := keycode - MIDI_OCTAVE_MIN }
  else if keycode = 0x7155 then if 0 < config.octave then { config with octave := config.octave - 1 } else config
  else if keycode = 0x7156 then
    if config.octave < MIDI_OCTAVE_MAX - MIDI_OCTAVE_MIN then { config with octave := config.octave + 1 } else config
  else if MIDI_TRANSPOSE_MIN ≤ keycode ∧ keycode ≤ MIDI_TRANSPOSE_MAX then
    { config with transpose := (keycode : Int) - QK_MIDI_TRANSPOSE_0 }
  else if keycode = 0x7164 then
    if (MIDI_TRANSPOSE_MIN : Int) - QK_MIDI_TRANSPOSE_0 < config.transpose then { config with transpose := config.transpose - 1 }
    else config
  else if keycode = 0x7165 then
    if config.transpose < (MIDI_TRANSPOSE_MAX : Int) - QK_MIDI_TRANSPOSE_0 then { config with transpose := config.transpose + 1 }
    else config
  else if MIDI_VELOCITY_MIN ≤ keycode ∧ keycode ≤ MIDI_VELOCITY_MAX then
    { config with velocity := computeVelocity (keycode - MIDI_VELOCITY_MIN) }
  else if keycode = 0x7171 then
    if config.velocity = 127 then { config with velocity := config.velocity - 10 }
    else if 12 < config.velocity then { config with velocity := config.velocity - 13 }
    else { config with velocity := 0 }
  else if keycode = 0x7172 then
    if config.velocity < 115 then { config with velocity := config.velocity + 13 } else { config with velocity := 127 }
  else if MIDI_CHANNEL_MIN ≤ keycode ∧ keycode ≤ MIDI_CHANNEL_MAX then
    { config with channel := BitVec.ofNat 4 (keycode - MIDI_CHANNEL_MIN) }
  else if keycode = 0x7183 then { config with channel := config.channel - 1 }
  else if keycode = 0x7184 then { config with channel := config.channel + 1 }
  else if keycode = 0x718C then { config with modulationInterval := min (config.modulationInterval + 1) 15 }
  else if keycode = 0x718D then { config with modulationInterval := config.modulationInterval - 1 }
  else config

/-- An event of a key -/
structure MidiKey where
  keycode : Nat
  pressed : Bool
  deriving DecidableEq, Repr

/-- The tone of the key -/
def MidiKey.tone? (e : MidiKey) : Option Nat :=
  if MIDI_TONE_MIN ≤ e.keycode ∧ e.keycode ≤ MIDI_TONE_MAX then some (e.keycode - MIDI_TONE_MIN) else none

/-- `process_midi` of a tone -/
def processTone (s : Tones) (e : MidiKey) (tone : Nat) : Tones × List Message :=
  let velocity := BitVec.ofNat 8 s.config.velocity
  if e.pressed then
    let note := midiComputeNote s.config e.keycode
    ({ s with
        count := Function.update s.count tone (s.count tone + 1)
        note := if s.note tone = MIDI_INVALID_NOTE then Function.update s.note tone note else s.note },
      [.noteon s.config.chan note velocity])
  else
    let note := s.note tone
    let count := s.count tone - 1
    if count = 0 then
      ({ s with count := Function.update s.count tone count, note := Function.update s.note tone MIDI_INVALID_NOTE },
        [.noteoff s.config.chan note velocity])
    else ({ s with count := Function.update s.count tone count }, [])

/-- `process_midi`, and what it sends -/
def processMidi (s : Tones) (e : MidiKey) : Tones × List Message :=
  match e.tone? with
  | some tone => processTone s e tone
  | none =>
    let chan := s.config.chan
    match pedals.lookup e.keycode with
    | some controller => (s, [.cc chan controller (if e.pressed then 127 else 0)])
    | none =>
      if e.keycode = 0x718B then ({ s with modulationStep := if e.pressed then 1 else -1 }, [])
      else if e.keycode = 0x718E then (s, [.pitchbend chan (if e.pressed then -0x2000 else 0)])
      else if e.keycode = 0x718F then (s, [.pitchbend chan (if e.pressed then 0x1fff else 0)])
      else if e.pressed then
        if e.keycode = 0x7185 then (s, [.cc chan 0x7B 0])
        else ({ s with config := configKey s.config e.keycode }, [])
      else (s, [])

/-- The second half of `midi_task`, when the interval has passed -/
def midiTask (s : Tones) : Tones × List Message :=
  if s.modulationStep ≠ 0 then
    let sent := [Message.cc s.config.chan 0x1 (BitVec.ofInt 8 s.modulation)]
    if s.modulationStep < 0 ∧ s.modulation < -s.modulationStep then ({ s with modulation := 0, modulationStep := 0 }, sent)
    else ({ s with modulation := min (s.modulation + s.modulationStep) 127 }, sent)
  else (s, [])

/-! ## What a receiver hears -/

/-- The notes that sound, by channel and number -/
abbrev Sounding := Byte → Byte → Bool

/-- A note that is started with velocity 0 does not sound, and controller 123 ends all notes of its channel. -/
def Sounding.hear (sounding : Sounding) : Message → Sounding
  | .noteon chan num vel => fun c n => if c = chan &&& 0x0F ∧ n = low7 num then low7 vel != 0 else sounding c n
  | .noteoff chan num _ => fun c n => if c = chan &&& 0x0F ∧ n = low7 num then false else sounding c n
  | .cc chan num _ => fun c n => if c = chan &&& 0x0F ∧ low7 num = 0x7B then false else sounding c n
  | _ => sounding

/-- What happens: an event of a key, or the task -/
inductive MidiStep where
  | key (e : MidiKey)
  | task
  deriving DecidableEq, Repr

/-- The keyboard and the receiver -/
structure Playing where
  tones : Tones
  sounding : Sounding

namespace Playing

def start : Playing := ⟨midiInit, fun _ _ => false⟩

def result (p : Playing) : MidiStep → Tones × List Message
  | .key e => processMidi p.tones e
  | .task => midiTask p.tones

def step (p : Playing) (e : MidiStep) : Playing :=
  let after := p.result e
  ⟨after.1, after.2.foldl Sounding.hear p.sounding⟩

/-- The tone is held. -/
def Held (p : Playing) (tone : Nat) : Prop := p.tones.count tone ≠ 0

/-- A tone is pressed while it is held only as the note that it has, and not by too many keys; it is released only while it is
held; and the channel is changed only while none is. -/
def Steady (p : Playing) : MidiStep → Prop
  | .task => True
  | .key e =>
    match e.tone? with
    | some tone =>
      if e.pressed then
        p.tones.count tone ≠ 0xFF ∧ (p.Held tone → midiComputeNote p.tones.config e.keycode = p.tones.note tone)
      else p.Held tone
    | none => (p.result (.key e)).1.config.channel ≠ p.tones.config.channel → ∀ tone, ¬ p.Held tone

/-- What sounds is the note of a tone that is held, on the channel that is set; a tone that is not held has no note. -/
structure Inv (p : Playing) : Prop where
  sounds : ∀ chan note, p.sounding chan note = true →
    ∃ tone, p.Held tone ∧ chan = p.tones.config.chan &&& 0x0F ∧ note = low7 (p.tones.note tone)
  none : ∀ tone, ¬ p.Held tone → p.tones.note tone = MIDI_INVALID_NOTE

theorem inv_start : Inv start := ⟨fun _ _ h => absurd h Bool.false_ne_true, fun _ _ => rfl⟩

/-- No message but the start of a note makes one sound. -/
theorem hear_of_sounding {sounding : Sounding} {m : Message} {chan note : Byte}
    (other : ∀ c n v, m ≠ .noteon c n v) (h : sounding.hear m chan note = true) : sounding chan note = true := by
  cases m with
  | noteon c n v => exact absurd rfl (other c n v)
  | noteoff c n v =>
    unfold Sounding.hear at h
    dsimp only at h
    split at h
    · exact absurd h Bool.false_ne_true
    · exact h
  | cc c n v =>
    unfold Sounding.hear at h
    dsimp only at h
    split at h
    · exact absurd h Bool.false_ne_true
    · exact h
  | _ => exact h

variable {p : Playing}

/-- Steps that leave the tones and start no note -/
theorem Inv.same (h : Inv p) {after : Tones} {sent : List Message} (note : after.note = p.tones.note)
    (count : after.count = p.tones.count) (chan : after.config.channel ≠ p.tones.config.channel → ∀ tone, ¬ p.Held tone)
    (quiet : ∀ m ∈ sent, ∀ c n v, m ≠ .noteon c n v) : Inv ⟨after, sent.foldl Sounding.hear p.sounding⟩ := by
  have still : ∀ (sent : List Message) (sounding : Sounding), (∀ m ∈ sent, ∀ c n v, m ≠ .noteon c n v) →
      ∀ chan note, sent.foldl Sounding.hear sounding chan note = true → sounding chan note = true := by
    intro sent
    induction sent with
    | nil => exact fun _ _ _ _ h => h
    | cons m sent ih =>
      intro sounding quiet chan note h
      have later := ih _ (fun m mem => quiet m (List.mem_cons_of_mem _ mem)) chan note h
      exact hear_of_sounding (quiet m List.mem_cons_self) later
  refine ⟨fun c n sounds => ?_, fun tone free => ?_⟩
  · obtain ⟨tone, held, onChan, isNote⟩ := h.sounds c n (still sent _ quiet c n sounds)
    have kept : after.config.channel = p.tones.config.channel := by
      by_contra moved
      exact chan moved tone held
    refine ⟨tone, ?_, ?_, ?_⟩
    · unfold Held at held ⊢
      dsimp only
      rwa [count]
    · unfold MidiConfig.chan at onChan ⊢
      dsimp only
      rw [kept]
      exact onChan
    · dsimp only
      rw [note]
      exact isNote
  · unfold Held at free
    dsimp only at free ⊢
    rw [note]
    rw [count] at free
    exact h.none tone free

/-- A tone that is pressed -/
theorem Inv.press (h : Inv p) {e : MidiKey} {tone : Nat} (pressed : e.pressed = true) (room : p.tones.count tone ≠ 0xFF)
    (again : p.Held tone → midiComputeNote p.tones.config e.keycode = p.tones.note tone) :
    Inv ⟨(processTone p.tones e tone).1, (processTone p.tones e tone).2.foldl Sounding.hear p.sounding⟩ := by
  have more : p.tones.count tone + 1 ≠ 0 := by
    intro zero
    apply room
    have : p.tones.count tone = 0 - 1 := by rw [← zero]; simp
    rw [this]
    rfl
  have note : (processTone p.tones e tone).1.note tone = midiComputeNote p.tones.config e.keycode := by
    unfold processTone
    rw [if_pos pressed]
    dsimp only
    split
    · exact Function.update_self ..
    case isFalse used =>
      by_cases held : p.Held tone
      · exact (again held).symm
      · exact absurd (h.none tone held) used
  have others : ∀ other, other ≠ tone → (processTone p.tones e tone).1.note other = p.tones.note other ∧
      (processTone p.tones e tone).1.count other = p.tones.count other := by
    intro other ne
    unfold processTone
    rw [if_pos pressed]
    dsimp only
    refine ⟨?_, Function.update_of_ne ne ..⟩
    split
    · exact Function.update_of_ne ne ..
    · rfl
  have count : (processTone p.tones e tone).1.count tone = p.tones.count tone + 1 := by
    unfold processTone
    rw [if_pos pressed]
    exact Function.update_self ..
  have config : (processTone p.tones e tone).1.config = p.tones.config := by
    unfold processTone
    rw [if_pos pressed]
  have sent : (processTone p.tones e tone).2 =
      [.noteon p.tones.config.chan (midiComputeNote p.tones.config e.keycode) (BitVec.ofNat 8 p.tones.config.velocity)] := by
    unfold processTone
    rw [if_pos pressed]
  refine ⟨fun c n sounds => ?_, fun other free => ?_⟩
  · rw [sent, List.foldl_cons, List.foldl_nil] at sounds
    dsimp only at sounds
    unfold Sounding.hear at sounds
    dsimp only at sounds
    split at sounds
    case isTrue here =>
      refine ⟨tone, ?_, ?_, ?_⟩
      · unfold Held
        dsimp only
        rw [count]
        exact more
      · dsimp only
        rw [config]
        exact here.1
      · dsimp only
        rw [note]
        exact here.2
    case isFalse =>
      obtain ⟨other, held, onChan, isNote⟩ := h.sounds c n sounds
      by_cases same : other = tone
      · refine ⟨tone, ?_, ?_, ?_⟩
        · unfold Held
          dsimp only
          rw [count]
          exact more
        · dsimp only
          rw [config]
          exact onChan
        · dsimp only
          rw [note, again (same ▸ held), ← same]
          exact isNote
      · refine ⟨other, ?_, ?_, ?_⟩
        · unfold Held at held ⊢
          dsimp only
          rwa [(others other same).2]
        · dsimp only
          rw [config]
          exact onChan
        · dsimp only
          rw [(others other same).1]
          exact isNote
  · unfold Held at free
    dsimp only at free ⊢
    by_cases same : other = tone
    · rw [same, count] at free
      exact absurd more free
    · rw [(others other same).1]
      rw [(others other same).2] at free
      exact h.none other free

/-- A tone that is released -/
theorem Inv.release (h : Inv p) {e : MidiKey} {tone : Nat} (released : e.pressed = false) :
    Inv ⟨(processTone p.tones e tone).1, (processTone p.tones e tone).2.foldl Sounding.hear p.sounding⟩ := by
  by_cases last : p.tones.count tone - 1 = 0
  · have after : processTone p.tones e tone =
        ({ p.tones with
            count := Function.update p.tones.count tone 0
            note := Function.update p.tones.note tone MIDI_INVALID_NOTE },
          [.noteoff p.tones.config.chan (p.tones.note tone) (BitVec.ofNat 8 p.tones.config.velocity)]) := by
      unfold processTone
      rw [released, if_neg Bool.false_ne_true]
      dsimp only
      rw [last, if_pos rfl]
    rw [after]
    refine ⟨fun c n sounds => ?_, fun other free => ?_⟩
    · rw [List.foldl_cons, List.foldl_nil] at sounds
      dsimp only at sounds
      unfold Sounding.hear at sounds
      dsimp only at sounds
      split at sounds
      case isTrue => exact absurd sounds Bool.false_ne_true
      case isFalse other =>
        obtain ⟨tone', held, onChan, isNote⟩ := h.sounds c n sounds
        -- what sounds still is not the note that ended
        have ne : tone' ≠ tone := by
          rintro rfl
          exact other ⟨onChan, isNote⟩
        refine ⟨tone', ?_, onChan, ?_⟩
        · unfold Held
          dsimp only
          rwa [Function.update_of_ne ne]
        · dsimp only
          rwa [Function.update_of_ne ne]
    · unfold Held at free
      dsimp only at free ⊢
      by_cases same : other = tone
      · rw [same, Function.update_self]
      · rw [Function.update_of_ne same] at free ⊢
        exact h.none other free
  · have after : processTone p.tones e tone =
        ({ p.tones with count := Function.update p.tones.count tone (p.tones.count tone - 1) }, []) := by
      unfold processTone
      rw [released, if_neg Bool.false_ne_true]
      dsimp only
      rw [if_neg last]
    rw [after]
    refine ⟨fun c n sounds => ?_, fun other free => ?_⟩
    · obtain ⟨tone', held, onChan, isNote⟩ := h.sounds c n sounds
      refine ⟨tone', ?_, onChan, isNote⟩
      unfold Held
      dsimp only
      by_cases same : tone' = tone
      · rw [same, Function.update_self]
        exact last
      · rwa [Function.update_of_ne same]
    · unfold Held at free
      dsimp only at free ⊢
      by_cases same : other = tone
      · rw [same, Function.update_self] at free
        exact absurd last free
      · rw [Function.update_of_ne same] at free
        exact h.none other free

/-- What is no tone leaves the tones as they are and starts no note. -/
theorem processMidi_other {s : Tones} {e : MidiKey} (other : e.tone? = none) :
    (processMidi s e).1.note = s.note ∧ (processMidi s e).1.count = s.count ∧
      ∀ m ∈ (processMidi s e).2, ∀ c n v, m ≠ .noteon c n v := by
  unfold processMidi
  rw [other]
  dsimp only
  split
  · simp
  · split_ifs <;> simp

theorem midiTask_other (s : Tones) : (midiTask s).1.note = s.note ∧ (midiTask s).1.count = s.count ∧
    (midiTask s).1.config = s.config ∧ ∀ m ∈ (midiTask s).2, ∀ c n v, m ≠ .noteon c n v := by
  unfold midiTask
  dsimp only
  split_ifs <;> simp

theorem Inv.step (h : Inv p) {e : MidiStep} (steady : p.Steady e) : Inv (p.step e) := by
  cases e with
  | task =>
    obtain ⟨note, count, config, quiet⟩ := midiTask_other p.tones
    exact h.same note count (fun moved => absurd (congrArg MidiConfig.channel config) moved) quiet
  | key e =>
    unfold Steady at steady
    cases tone : e.tone? with
    | some tone' =>
      have result : processMidi p.tones e = processTone p.tones e tone' := by
        unfold processMidi
        rw [tone]
      dsimp only at steady
      rw [tone] at steady
      dsimp only at steady
      change Inv ⟨(processMidi p.tones e).1, (processMidi p.tones e).2.foldl Sounding.hear p.sounding⟩
      rw [result]
      cases way : e.pressed with
      | true =>
        rw [way, if_pos rfl] at steady
        exact h.press way steady.1 steady.2
      | false => exact h.release way
    | none =>
      dsimp only at steady
      rw [tone] at steady
      obtain ⟨note, count, quiet⟩ := processMidi_other tone (s := p.tones)
      exact h.same note count steady quiet

/-- **No note is left sounding**: in every run whose steps are steady, what a receiver hears are notes of tones that are held, so
it hears none when no key is held, whatever the octave and the transposition were set to in between. -/
theorem notes_end {steps : List MidiStep} (steady : Along step Steady start steps)
    (free : ∀ tone, ¬ (steps.foldl step start).Held tone) : ∀ chan note, (steps.foldl step start).sounding chan note = false := by
  have inv : Inv (steps.foldl step start) := Along.invariant Inv (fun _ _ h steady => h.step steady) inv_start steady
  intro chan note
  by_contra sounds
  obtain ⟨tone, held, -⟩ := inv.sounds chan note (Bool.eq_true_of_not_eq_false sounds)
  exact free tone held

/-- A note that is held while the octave goes up -/
def octaveBetween : List MidiStep := [.key ⟨0x7103, true⟩, .key ⟨0x7156, true⟩, .key ⟨0x7156, false⟩, .task, .key ⟨0x7103, false⟩]

theorem notes_end_octaveBetween : ∀ chan note, (octaveBetween.foldl step start).sounding chan note = false := by
  refine notes_end ⟨?_, ?_, ?_, ?_, ?_, trivial⟩ ?_
  · exact ⟨by decide, fun held => absurd rfl held⟩
  · exact fun moved => absurd rfl moved
  · exact fun moved => absurd rfl moved
  · trivial
  · show ¬ _
    decide
  · intro tone held
    apply held
    change Function.update (Function.update (fun _ => (0 : Byte)) 0 1) 0 0 tone = 0
    by_cases first : tone = 0
    · rw [first, Function.update_self]
    · rw [Function.update_of_ne first, Function.update_of_ne first]

end Playing

end QmkFirmware.Midi
