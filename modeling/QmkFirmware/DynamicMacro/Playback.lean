import QmkFirmware.DynamicMacro.Stored
import QmkFirmware.DynamicMacro.Action

/-!
# The playback of a macro

`dynamic_macro_play` gives `process_record` a pointer into the buffer for each record of a
macro, and `process_action` writes to the record it is given. A macro that is played may
play another one, so playbacks are a stack.
-/

namespace QmkFirmware.DynamicMacro
open Lib
open Tapping (Record Action)
open Layer (Oneshot OneshotConfig LayerState)

variable {maxLayer : Nat} {σ : Type}

/-- What of the firmware is around `process_dynamic_macro` and `process_action`: the handlers that
`process_record_quantum` calls before and after the former, which may keep the record for themselves,
`store_or_get_action`, and `post_process_record_quantum` -/
structure Device (maxLayer : Nat) (σ : Type) where
  build : Build σ
  size : Nat
  noNesting : Bool
  validKeyUser : UInt16 → Record → Bool
  before : Record → Keyboard maxLayer σ → Option UInt16 × Keyboard maxLayer σ
  after : UInt16 → Record → Keyboard maxLayer σ → Bool × Keyboard maxLayer σ
  storeOrGetAction : Record → Keyboard maxLayer σ → Action × Keyboard maxLayer σ
  post : Record → Keyboard maxLayer σ → Keyboard maxLayer σ

/-- What `process_record` leaves: a macro that it plays is played next, and `finish` comes after that. -/
structure Processed (maxLayer : Nat) (σ : Type) where
  record : Record
  macros : World Record
  keyboard : Keyboard maxLayer σ
  plays : Option Slot
  finish : Keyboard maxLayer σ → Keyboard maxLayer σ

namespace Device

variable (d : Device maxLayer σ)

def config : Config Record := ⟨d.size, d.noNesting, d.validKeyUser, fun r => r.event.pressed⟩

/-- `clear_keyboard` and `layer_clear` -/
def clear (k : Keyboard maxLayer σ) : Keyboard maxLayer σ := (k.call d.build .clearKeyboard).layers fun _ => 0

/-- A record that `process_record_quantum` keeps for itself -/
def swallow (record : Record) (k : Keyboard maxLayer σ) : Keyboard maxLayer σ :=
  { k with oneshot := Layer.beforeAction (k.config d.build) k.oneshot record.event.pressed true }

/-- `process_record` up to `process_record_handler` -/
def processRecordWith (handler : Record → World Record → Keyboard maxLayer σ → Processed maxLayer σ) (record : Record)
    (macros : World Record) (k : Keyboard maxLayer σ) : Processed maxLayer σ :=
  if record.event.isNoEvent then ⟨record, macros, k, none, id⟩
  else
    match d.before record k with
    | (none, k) => ⟨record, macros, d.swallow record k, none, id⟩
    | (some keycode, k) =>
      let called := macros.step d.config (.call keycode record)
      match (d.config.processDynamicMacro keycode record macros.state).2 with
      | .plays slot => ⟨record, called, k, some slot, id⟩
      -- a recording that starts clears the keyboard
      | .handled => ⟨record, called, d.swallow record (if macros.state.macroId = none then d.clear k else k), none, id⟩
      | .passed =>
        match d.after keycode record k with
        | (false, k) => ⟨record, called, d.swallow record k, none, id⟩
        | (true, k) => handler record called k

/-- `process_record` of a release; the last block of `process_action` is for presses. -/
def processReleased : Record → World Record → Keyboard maxLayer σ → Processed maxLayer σ :=
  d.processRecordWith fun record macros k =>
    let (action, k) := d.storeOrGetAction record k
    let (record, k, _) := processAction d.build record action k
    ⟨record, macros, d.post record k, none, id⟩

/-- `process_record` -/
def processRecord : Record → World Record → Keyboard maxLayer σ → Processed maxLayer σ :=
  d.processRecordWith fun record macros k =>
    let (action, k) := d.storeOrGetAction record k
    let (record, k, last) := processAction d.build record action k
    if last then
      let released := d.processReleased { record with event := { record.event with pressed := false } } macros
        (k.layers (Layer.layerOn · k.oneshot.getOneshotLayer))
      { released with
        finish := fun k => d.post released.record ((released.finish k).layers (Layer.layerOff · k.oneshot.getOneshotLayer)) }
    else ⟨record, macros, d.post record k, none, id⟩

end Device

/-- A call of `dynamic_macro_play`: `macro_buffer`, `macro_end` and `saved_layer_state`, and what its caller does after it.
The last two fields are not in the code: the macro as it was recorded, and the records that were given to `process_record`. -/
structure Playback (maxLayer : Nat) (σ : Type) where
  slot : Slot
  macroBuffer : Int
  macroEnd : Int
  savedLayerState : LayerState maxLayer
  finish : Keyboard maxLayer σ → Keyboard maxLayer σ
  recorded : List Record
  fed : List Record

/-- The buffer and the macros as they were recorded, the keyboard, and the playbacks, the innermost one first. The last
field is not in the code: of each playback that is done the macro as it was recorded and what was given to `process_record`. -/
structure Player (maxLayer : Nat) (σ : Type) where
  macros : World Record
  keyboard : Keyboard maxLayer σ
  playbacks : List (Playback maxLayer σ)
  played : List (List Record × List Record)

/-- What happens: a key with a record of its own, after anything that happens to the keyboard before it, or the next turn
of the loop of `dynamic_macro_play`. -/
inductive Turn (maxLayer : Nat) (σ : Type) where
  | key (keycode : UInt16) (record : Record) (keyboard : Keyboard maxLayer σ)
  | next

namespace Player

variable (d : Device maxLayer σ)

/-- At the start there is nothing stored. -/
def initial (buffer : Int → Record) (keyboard : Keyboard maxLayer σ) : Player maxLayer σ :=
  ⟨.initial d.config buffer, keyboard, [], []⟩

/-- `dynamic_macro_play` up to its loop -/
def start (slot : Slot) (finish : Keyboard maxLayer σ → Keyboard maxLayer σ) (p : Player maxLayer σ) : Player maxLayer σ :=
  { p with
    keyboard := d.clear p.keyboard
    playbacks := ⟨slot, d.config.start slot, p.macros.state.ending slot, p.keyboard.oneshot.layerState, finish,
      p.macros.macros.stored slot, []⟩ :: p.playbacks }

/-- The element of the buffer at a pointer is written. -/
def write (pointer : Int) (record : Record) (macros : World Record) : World Record :=
  { macros with state := { macros.state with buffer := Function.update macros.state.buffer pointer record } }

/-- `process_record` of the element at `macro_buffer`, and `macro_buffer += direction` -/
def feed (playback : Playback maxLayer σ) (rest : List (Playback maxLayer σ)) (p : Player maxLayer σ) : Player maxLayer σ :=
  let record := p.macros.state.buffer playback.macroBuffer
  let processed := d.processRecord record p.macros p.keyboard
  let playback' := { playback with macroBuffer := playback.macroBuffer + playback.slot.direction, fed := playback.fed ++ [record] }
  let p := { p with
    macros := write playback.macroBuffer processed.record processed.macros
    keyboard := processed.keyboard
    playbacks := playback' :: rest }
  match processed.plays with
  | some slot => p.start d slot processed.finish
  | none => { p with keyboard := processed.finish p.keyboard }

/-- `dynamic_macro_play` after its loop -/
def stop (playback : Playback maxLayer σ) (rest : List (Playback maxLayer σ)) (p : Player maxLayer σ) : Player maxLayer σ :=
  { p with
    keyboard := playback.finish ((p.keyboard.call d.build .clearKeyboard).layers fun _ => playback.savedLayerState)
    playbacks := rest
    played := (playback.recorded, playback.fed) :: p.played }

def step (p : Player maxLayer σ) : Turn maxLayer σ → Player maxLayer σ
  | .key keycode record keyboard =>
    let called : Player maxLayer σ := { p with macros := p.macros.step d.config (.call keycode record), keyboard := keyboard }
    match (d.config.processDynamicMacro keycode record p.macros.state).2 with
    | .plays slot => called.start d slot id
    | _ => called
  | .next =>
    match p.playbacks with
    | [] => p
    | playback :: rest => if playback.macroBuffer = playback.macroEnd then p.stop d playback rest else p.feed d playback rest

end Player

/-! ## What leaves the macros as they are -/

/-- A recording is started. -/
def StartsRecording (keycode : UInt16) (record : Record) (s : State Record) : Prop :=
  s.macroId = none ∧ record.event.pressed = false ∧ (keycode = recordStart1 ∨ keycode = recordStart2)

namespace Device

variable (d : Device maxLayer σ)

/-- A record that is called `keycode` starts no recording, and its action does not write to it. -/
def Harmless (keycode : UInt16) (record : Record) (s : State Record) (k : Keyboard maxLayer σ) : Prop :=
  ¬ StartsRecording keycode record s ∧
    ((d.config.processDynamicMacro keycode record s).2 = .passed → (d.after keycode record k).1 = true →
      let (action, k) := d.storeOrGetAction record (d.after keycode record k).2
      Spares d.build record action k)

/-- The same for a record that `process_record` is given -/
def Spared (record : Record) (s : State Record) (k : Keyboard maxLayer σ) : Prop :=
  record.event.isNoEvent = false →
    ∀ keycode ∈ (d.before record k).1, d.Harmless keycode record s (d.before record k).2

/-- The condition of a step: no recording starts in a playback, and what is played is spared. -/
def TurnOk (p : Player maxLayer σ) : Turn maxLayer σ → Prop
  | .key keycode record _ => p.playbacks ≠ [] → ¬ StartsRecording keycode record p.macros.state
  | .next => ∀ playback ∈ p.playbacks.head?, playback.macroBuffer ≠ playback.macroEnd →
      d.Spared (p.macros.state.buffer playback.macroBuffer) p.macros.state p.keyboard

end Device

section

variable {d : Device maxLayer σ} {p : Player maxLayer σ} {x : World Record} {keycode : UInt16} {record : Record}
  {k : Keyboard maxLayer σ} {slot : Slot}

instance (s : State Record) : Decidable (StartsRecording keycode record s) := inferInstanceAs (Decidable (_ ∧ _))

instance (s : State Record) : Decidable (d.Harmless keycode record s k) := inferInstanceAs (Decidable (_ ∧ (_ → _ → Spares _ _ _ _)))

instance (s : State Record) : Decidable (d.Spared record s k) :=
  haveI := @Option.decidableForallMem UInt16 (fun keycode => d.Harmless keycode record s (d.before record k).2) _
    (d.before record k).1
  inferInstanceAs (Decidable (_ → ∀ keycode ∈ (d.before record k).1, d.Harmless keycode record s (d.before record k).2))

instance : (turn : Turn maxLayer σ) → Decidable (d.TurnOk p turn)
  | .key _ _ _ => inferInstanceAs (Decidable (_ ≠ [] → _))
  | .next => inferInstanceAs (Decidable (∀ _ ∈ _, _ → _))

/-- Only a key that starts a recording changes anything while none is on. -/
theorem step_idle (refines : Refines d.config x.state x.macros) (idle : x.state.macroId = none)
    (other : ¬ StartsRecording keycode record x.state) : x.step d.config (.call keycode record) = x := by
  have none : x.macros.recording = none := by
    have id := refines.macroId
    rw [idle] at id
    exact Option.map_eq_none_iff.mp id.symm
  have state : (d.config.processDynamicMacro keycode record x.state).1 = x.state := by
    unfold Config.processDynamicMacro
    rw [idle]
    dsimp only
    split_ifs with pressed one two
    · rfl
    · exact absurd ⟨idle, eq_false_of_ne_true pressed, .inl one⟩ other
    · exact absurd ⟨idle, eq_false_of_ne_true pressed, .inr two⟩ other
    all_goals rfl
  have macros : x.macros.call d.config keycode record = x.macros := by
    unfold Macros.call
    rw [none]
    dsimp only
    split_ifs with pressed one two
    · rfl
    · exact absurd ⟨idle, eq_false_of_ne_true pressed, .inl one⟩ other
    · exact absurd ⟨idle, eq_false_of_ne_true pressed, .inr two⟩ other
    · rfl
  change World.mk _ _ = x
  rw [state, macros]

/-- A macro is played while none is recorded. -/
theorem plays_idle {s : State Record} (plays : (d.config.processDynamicMacro keycode record s).2 = .plays slot) :
    s.macroId = none ∧ ¬ StartsRecording keycode record s := by
  unfold Config.processDynamicMacro at plays
  cases id : s.macroId with
  | none =>
    refine ⟨rfl, ?_⟩
    rintro ⟨-, released, start⟩
    rw [id] at plays
    dsimp only at plays
    rw [if_neg (by exact Bool.eq_false_iff.mp released)] at plays
    rcases start with rfl | rfl <;> exact absurd plays (by simp [recordStart1, recordStart2])
  | some recorded =>
    rw [id] at plays
    dsimp only at plays
    unfold Config.recording at plays
    split_ifs at plays
    all_goals cases recorded <;> cases plays

/-- What a record that is spared leaves: itself and the macros -/
theorem processRecordWith_spared {handler : Record → World Record → Keyboard maxLayer σ → Processed maxLayer σ}
    (refines : Refines d.config x.state x.macros) (idle : x.state.macroId = none) (spared : d.Spared record x.state k)
    (handled : ∀ k, (let (action, k) := d.storeOrGetAction record k; Spares d.build record action k) →
      (handler record x k).record = record ∧ (handler record x k).macros = x) :
    (d.processRecordWith handler record x k).record = record ∧ (d.processRecordWith handler record x k).macros = x := by
  unfold Device.processRecordWith
  split
  · exact ⟨rfl, rfl⟩
  next event =>
    have called := spared (eq_false_of_ne_true event)
    split
    · exact ⟨rfl, rfl⟩
    next keycode k' before =>
      obtain ⟨other, spares⟩ := called keycode (congrArg Prod.fst before)
      have same := step_idle refines idle other
      rw [before] at spares
      dsimp only
      rw [same]
      split
      · exact ⟨rfl, rfl⟩
      · exact ⟨rfl, rfl⟩
      next passed =>
        split
        · exact ⟨rfl, rfl⟩
        next k'' after =>
          apply handled
          have := spares passed (congrArg Prod.fst after)
          rw [after] at this
          exact this

theorem processRecord_spared (refines : Refines d.config x.state x.macros) (idle : x.state.macroId = none)
    (spared : d.Spared record x.state k) :
    (d.processRecord record x k).record = record ∧ (d.processRecord record x k).macros = x := by
  apply processRecordWith_spared refines idle spared
  intro k spares
  obtain ⟨same, last⟩ := processAction_spares.mpr spares
  dsimp only
  rw [last, if_neg Bool.false_ne_true]
  exact ⟨same, rfl⟩

/-- What holds of a playback: it has fed the records up to where its pointer is. -/
structure Plays (cfg : Config Record) (stored : Slot → List Record) (x : Playback maxLayer σ) : Prop where
  recorded : x.recorded = stored x.slot
  fed : ∃ k ≤ x.recorded.length, x.fed = x.recorded.take k ∧ x.macroBuffer = cfg.cell x.slot k
  macroEnd : x.macroEnd = cfg.cell x.slot x.recorded.length

/-- What every step that meets the condition keeps -/
structure Repeats (d : Device maxLayer σ) (p : Player maxLayer σ) : Prop where
  refines : Refines d.config p.macros.state p.macros.macros
  idle : p.playbacks ≠ [] → p.macros.state.macroId = none
  playing : ∀ x ∈ p.playbacks, Plays d.config p.macros.macros.stored x
  played : ∀ x ∈ p.played, x.2 = x.1

theorem Repeats.start (h : Repeats d p) (idle : p.macros.state.macroId = none)
    {finish : Keyboard maxLayer σ → Keyboard maxLayer σ} : Repeats d (p.start d slot finish) where
  refines := h.refines
  idle _ := idle
  playing x mem := by
    rcases List.mem_cons.mp mem with rfl | mem
    · constructor
      · rfl
      · exact ⟨0, Nat.zero_le _, rfl, cell_zero.symm⟩
      · exact h.refines.ending slot
    · exact h.playing x mem
  played := h.played

theorem Repeats.key (h : Repeats d p) (ok : d.TurnOk p (.key keycode record k)) :
    Repeats d (p.step d (.key keycode record k)) := by
  have called : Repeats d { p with macros := p.macros.step d.config (.call keycode record), keyboard := k } := by
    by_cases playing : p.playbacks = []
    · constructor
      · exact h.refines.call
      · exact fun on => absurd playing on
      · intro x mem
        dsimp only at mem
        rw [playing] at mem
        cases mem
      · exact h.played
    · rw [step_idle h.refines (h.idle playing) (ok playing)]
      exact ⟨h.refines, h.idle, h.playing, h.played⟩
  unfold Player.step
  dsimp only
  split
  next slot plays =>
    apply called.start
    obtain ⟨idle, other⟩ := plays_idle plays
    dsimp only
    rw [step_idle h.refines idle other]
    exact idle
  · exact called

/-- The record at the pointer of a playback is the next one of the macro. -/
theorem Plays.next {stored : Slot → List Record} {x : Playback maxLayer σ} {buffer : Int → Record} {cfg : Config Record}
    (h : Plays cfg stored x) (holds : cfg.Holds buffer x.slot x.recorded) (more : x.macroBuffer ≠ x.macroEnd) :
    Plays cfg stored
      { x with macroBuffer := x.macroBuffer + x.slot.direction, fed := x.fed ++ [buffer x.macroBuffer] } := by
  obtain ⟨n, le, fed, pointer⟩ := h.fed
  have lt : n < x.recorded.length := by
    apply Nat.lt_of_le_of_ne le
    intro last
    exact more (by rw [pointer, h.macroEnd, last])
  constructor
  · exact h.recorded
  · refine ⟨n + 1, lt, ?_, ?_⟩
    · dsimp only
      rw [fed, pointer, holds n lt, List.take_succ_eq_append_getElem lt]
    · dsimp only
      rw [pointer, cell_succ]
  · exact h.macroEnd

theorem write_same {pointer : Int} : Player.write pointer (x.state.buffer pointer) x = x := by
  unfold Player.write
  rw [Function.update_eq_self]

/-- `dynamic_macro_play` after its loop: everything that was recorded has been fed. -/
theorem Repeats.stop (h : Repeats d p) {playback : Playback maxLayer σ} {rest : List (Playback maxLayer σ)}
    (on : p.playbacks = playback :: rest) (done : playback.macroBuffer = playback.macroEnd) :
    Repeats d (p.stop d playback rest) := by
  constructor
  · exact h.refines
  · exact fun _ => h.idle (by rw [on]; exact List.cons_ne_nil _ _)
  · intro x mem
    exact h.playing x (by rw [on]; exact List.mem_cons_of_mem _ mem)
  · intro x mem
    rcases List.mem_cons.mp mem with rfl | mem
    · have plays := h.playing playback (by rw [on]; exact List.mem_cons_self)
      obtain ⟨n, -, fed, pointer⟩ := plays.fed
      rw [pointer, plays.macroEnd, cell_injective] at done
      dsimp only
      rw [fed, done, List.take_length]
    · exact h.played x mem

/-- A turn of the loop -/
theorem Repeats.feed (h : Repeats d p) {playback : Playback maxLayer σ} {rest : List (Playback maxLayer σ)}
    (on : p.playbacks = playback :: rest) (more : playback.macroBuffer ≠ playback.macroEnd)
    (spared : d.Spared (p.macros.state.buffer playback.macroBuffer) p.macros.state p.keyboard) :
    Repeats d (p.feed d playback rest) ∧ (p.feed d playback rest).macros = p.macros := by
  have idle := h.idle (by rw [on]; exact List.cons_ne_nil _ _)
  obtain ⟨record, macros⟩ := processRecord_spared h.refines idle spared
  have plays := h.playing playback (by rw [on]; exact List.mem_cons_self)
  have holds : d.config.Holds p.macros.state.buffer playback.slot playback.recorded := by
    rw [plays.recorded]
    apply h.refines.stored
    rw [idle]
    exact (Option.some_ne_none playback.slot).symm
  have fed (keyboard : Keyboard maxLayer σ) : Repeats d { p with
      keyboard := keyboard
      playbacks := { playback with
        macroBuffer := playback.macroBuffer + playback.slot.direction
        fed := playback.fed ++ [p.macros.state.buffer playback.macroBuffer] } :: rest } := by
    constructor
    · exact h.refines
    · exact fun _ => idle
    · intro x mem
      rcases List.mem_cons.mp mem with rfl | mem
      · exact plays.next holds more
      · exact h.playing x (by rw [on]; exact List.mem_cons_of_mem _ mem)
    · exact h.played
  unfold Player.feed
  dsimp only
  rw [record, macros, write_same]
  split
  · exact ⟨(fed _).start idle, rfl⟩
  · exact ⟨fed _, rfl⟩

theorem Repeats.next (h : Repeats d p) (ok : d.TurnOk p .next) :
    Repeats d (p.step d .next) ∧ (p.step d .next).macros = p.macros := by
  unfold Player.step
  dsimp only
  split
  · exact ⟨h, rfl⟩
  next playback rest on =>
    have spared := ok playback (by rw [on]; rfl)
    split
    next done => exact ⟨h.stop on done, rfl⟩
    next more => exact h.feed on more (spared more)

theorem repeats_initial {buffer : Int → Record} : Repeats d (.initial d buffer k) where
  refines := refines_initial
  idle on := absurd rfl on
  playing _ mem := absurd mem List.not_mem_nil
  played _ mem := absurd mem List.not_mem_nil

/-- **Playback is repeatable as long as no record is written to.** Where none of the three branches is taken and no
recording starts in a playback, the buffer holds the macros as they were recorded, every playback that is done has fed the
records of its macro as they were recorded, and a turn of a playback changes nothing in the buffer. -/
theorem playback_repeatable {buffer : Int → Record} {turns : List (Turn maxLayer σ)}
    (ok : Along (Player.step d) d.TurnOk (.initial d buffer k) turns) :
    let p := turns.foldl (Player.step d) (.initial d buffer k)
    Refines d.config p.macros.state p.macros.macros ∧ (∀ x ∈ p.played, x.2 = x.1) ∧
      (d.TurnOk p .next → (p.step d .next).macros = p.macros) := by
  intro p
  have h : Repeats d p := by
    apply ok.invariant (Repeats d) _ repeats_initial
    intro p turn h ok
    cases turn with
    | key keycode record keyboard => exact h.key ok
    | next => exact (h.next ok).1
  exact ⟨h.refines, h.played, fun ok => (h.next ok).2⟩

end

/-- A keyboard without other handlers: `OSL(1)` in column 0 and `KC_A` in column 1 -/
def twoKeys : Device 16 Unit where
  build := {
    extrakey := false
    swapHandsEnable := false
    ignoreModTapInterrupt := false
    holdOnOtherKeyPressPerKey := false
    oneshotTapToggle := 0
    tappingToggle := 5
    getHoldOnOtherKeyPress := fun _ _ => false
    getMods := fun _ => 0
    getOneshotMods := fun _ => 0
    getOneshotLockedMods := fun _ => 0
    swapHands := fun _ => false
    swapHeld := fun _ => false
    call := fun _ _ => () }
  size := 128
  noNesting := false
  validKeyUser _ _ := true
  before record k := (some (if record.event.key.col = 0 then 0x5281 else 0x0004), k)
  after _ _ k := (true, k)
  storeOrGetAction record k := (if record.event.key.col = 0 then 0xA1F4 else 0x0004, k)
  post _ k := k

/-- The record of a key of row 0 -/
def keyRecord (col : UInt8) (pressed : Bool) (time : UInt16) (count : Nat) : Record := ⟨⟨⟨col, 0⟩, pressed, time⟩, ⟨false, count⟩⟩

/-- All layers are off, and the one-shot layer is enabled. -/
def atRest : Keyboard 16 Unit := ⟨true, .idle 0, ()⟩

/-- The first macro is recorded from keys that are typed. -/
def recorded (keys : List (UInt16 × Record)) : List (Turn 16 Unit) :=
  .key recordStart1 (keyRecord 2 false 1 0) atRest :: (keys.map fun typed => .key typed.1 typed.2 atRest) ++
    [.key recordStop (keyRecord 3 true 9 0) atRest]

/-- The first macro is played: the key, `length` turns of the loop and the end of it. -/
def playedOnce (length : Nat) : List (Turn 16 Unit) :=
  .key play1 (keyRecord 4 false 10 0) atRest :: List.replicate (length + 1) .next

/-- `KC_A` is recorded, and played twice. -/
theorem playback_repeatable_a :
    let p := (recorded [(4, keyRecord 1 true 2 0), (4, keyRecord 1 false 3 0)] ++ playedOnce 2 ++ playedOnce 2).foldl
      (Player.step twoKeys) (.initial twoKeys (fun _ => .empty) atRest)
    p.played.length = 2 ∧ ∀ x ∈ p.played, x.2 = x.1 :=
  ⟨by decide +kernel, (playback_repeatable (by decide +kernel)).2.1⟩

/-- `OSL(1)` and `KC_A` are tapped and recorded, and played twice: the second time `KC_A` is not pressed. -/
theorem oneshot_released :
    let p := (recorded [(0x5281, keyRecord 0 true 2 1), (0x5281, keyRecord 0 false 3 1), (4, keyRecord 1 true 4 0),
      (4, keyRecord 1 false 5 0)] ++ playedOnce 4 ++ playedOnce 4).foldl
      (Player.step twoKeys) (.initial twoKeys (fun _ => .empty) atRest)
    p.macros.macros.stored .one =
        [keyRecord 0 true 2 1, keyRecord 0 false 3 1, keyRecord 1 true 4 0, keyRecord 1 false 5 0] ∧
      p.played.map Prod.snd =
        [[keyRecord 0 true 2 1, keyRecord 0 false 3 1, keyRecord 1 false 4 0, keyRecord 1 false 5 0],
          [keyRecord 0 true 2 1, keyRecord 0 false 3 1, keyRecord 1 true 4 0, keyRecord 1 false 5 0]] := by
  decide +kernel

end QmkFirmware.DynamicMacro
