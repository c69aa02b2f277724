import QmkFirmware.Tapping.Engine

/-!
# What one call of the tapping engine does

`Call` lists the outcomes of `process_tapping`, each with what is known when it
happens. Everything about runs is proved by cases on it.
-/

namespace QmkFirmware.Tapping

/-- A tapping key that is neither tapped nor held so far. -/
def Record.Undecided (t : Record) : Prop :=
  t.event.isEvent = true ∧ t.event.pressed = true ∧ t.tap.count = 0

/-- A tapping key that is down and has been handed out as a tap. -/
def Record.Tapped (t : Record) : Prop :=
  t.event.isEvent = true ∧ t.event.pressed = true ∧ t.tap.count ≠ 0

instance (t : Record) : Decidable t.Undecided := inferInstanceAs (Decidable (_ ∧ _))

instance (t : Record) : Decidable t.Tapped := inferInstanceAs (Decidable (_ ∧ _))

/-- The record with another tap count. -/
def Record.withCount (t : Record) (count : Nat) : Record := { t with tap := { t.tap with count } }

/-- The record with another interrupted flag. -/
def Record.withInterrupted (t : Record) (interrupted : Bool) : Record :=
  { t with tap := { t.tap with interrupted } }

@[simp] theorem KeyEvent.record_event (event : KeyEvent) : event.record.event = event := rfl
@[simp] theorem Record.withCount_event (t : Record) (n : Nat) : (t.withCount n).event = t.event := rfl
@[simp] theorem Record.withCount_count (t : Record) (n : Nat) : (t.withCount n).tap.count = n := rfl
@[simp] theorem Record.withInterrupted_event (t : Record) (b : Bool) :
    (t.withInterrupted b).event = t.event := rfl
@[simp] theorem Record.withInterrupted_count (t : Record) (b : Bool) :
    (t.withInterrupted b).tap.count = t.tap.count := rfl
@[simp] theorem Record.withInterrupted_self (t : Record) :
    t.withInterrupted t.tap.interrupted = t := rfl

@[simp] theorem Record.empty_not_undecided : ¬ Record.empty.Undecided := by decide
@[simp] theorem Record.empty_not_tapped : ¬ Record.empty.Tapped := by decide

variable {σ : Type} {env : Env σ} {s : Engine σ} {x : Record}

/-! ## Handing out a record -/

@[simp] theorem process_record (r : Record) (b : Bool) : (process env s r b).1 = written env s.keyboard r := rfl

@[simp] theorem process_handed (r : Record) (b : Bool) :
    (process env s r b).2.handed = s.handed ++ [⟨r, b⟩] := rfl

@[simp] theorem process_waitingBuffer (r : Record) (b : Bool) :
    (process env s r b).2.waitingBuffer = s.waitingBuffer := rfl

@[simp] theorem process_tappingKey (r : Record) (b : Bool) :
    (process env s r b).2.tappingKey = s.tappingKey := rfl

section Written

variable {keyboard : σ} {r : Record}

/-- A record that none of the branches is taken for is left as it was. -/
theorem written_of_kept (uncancelled : cancels env keyboard r = false) (unreleased : releases env keyboard r = false)
    (unreset : resets env keyboard r = false) : written env keyboard r = r := by
  rw [written, uncancelled, unreleased, unreset, Bool.not_false, Bool.and_true]
  simp

/-- A release is left as it was, or cleared. -/
theorem written_of_released (up : r.event.pressed = false) :
    written env keyboard r = .empty ∨ written env keyboard r = r := by
  cases h : resets env keyboard r with
  | true =>
    rw [written, h]
    split
    · exact Or.inr rfl
    · exact Or.inl rfl
  | false => exact Or.inr (written_of_kept (by simp [cancels, up]) (by simp [releases, up]) h)

/-- A tap that is not cancelled keeps its count, or the record is cleared. -/
theorem written_tap (uncancelled : cancels env keyboard r = false) (unreset : resets env keyboard r = false) :
    (written env keyboard r).tap = r.tap := by
  rw [written, uncancelled, unreset]
  split <;> simp

/-- Only a tap that is cancelled is left undecided. -/
theorem written_decided (uncancelled : cancels env keyboard r = false) (decided : ¬ r.Undecided) :
    ¬ (written env keyboard r).Undecided := by
  intro undecided
  rw [written, uncancelled] at undecided
  split at undecided
  case isTrue => exact decided undecided
  case isFalse isEvent =>
    split at undecided
    case isTrue => exact Record.empty_not_undecided undecided
    case isFalse =>
      have down : r.event.pressed = true := (Bool.and_eq_true _ _ ▸ undecided.2.1).1
      exact decided ⟨by simpa [KeyEvent.isEvent] using isEvent, down, undecided.2.2⟩

/-- A record that is left a tap is left as it was. -/
theorem written_tapped (tapped : (written env keyboard r).Tapped) : written env keyboard r = r := by
  rw [written] at tapped ⊢
  split
  case isTrue => rfl
  case isFalse isEvent =>
    rw [if_neg isEvent] at tapped
    split at tapped
    case isTrue => exact absurd tapped Record.empty_not_tapped
    case isFalse unreset =>
      have down := Bool.and_eq_true _ _ ▸ tapped.2.1
      have count := tapped.2.2
      simp only at count
      split at count
      case isTrue => exact absurd rfl count
      case isFalse uncancelled =>
        rw [if_neg unreset, if_neg uncancelled, down.2, Bool.and_true]

end Written

/-! ## Scanning the waiting buffer -/

theorem markFirst_events {p : Record → Bool} {l l' : List Record} (h : markFirst p l = some l') :
    l'.map Record.event = l.map Record.event := by
  induction l generalizing l' with
  | nil => cases h
  | cons r l ih =>
    rw [markFirst] at h
    split at h
    · cases h
      rfl
    · obtain ⟨m, hm, rfl⟩ := Option.map_eq_some_iff.1 h
      rw [List.map_cons, List.map_cons, ih hm]

/-- The release that a scan looks for. -/
def scanned (env : Env σ) (s : Engine σ) (r : Record) : Bool :=
  s.isTappingKey r.event.key && !r.event.pressed && withinTappingTerm env s r.event

variable (env) in
/-- A scan finds nothing, or the release of the tapping key, which is handed out as
a tap. -/
theorem waitingBufferScanTap_cases (s : Engine σ) :
    waitingBufferScanTap env s = s ∨
      ∃ waitingBuffer, s.tappingKey.tap.count = 0 ∧ s.tappingKey.event.pressed = true ∧
        markFirst (scanned env s) s.waitingBuffer = some waitingBuffer ∧
        waitingBufferScanTap env s = processTappingKey env
          { s with waitingBuffer, tappingKey := s.tappingKey.withCount 1 } := by
  rw [waitingBufferScanTap]
  split
  case isTrue => exact Or.inl rfl
  case isFalse h =>
    split
    case h_1 waitingBuffer found =>
      exact Or.inr ⟨waitingBuffer, by omega, by simpa using fun e => h (Or.inr e), found, rfl⟩
    case h_2 => exact Or.inl rfl

/-! ## The outcomes -/

/-- The record with which the press of the released tapping key is handed out, if it comes in time for a sequential tap -/
def sequentialTap (env : Env σ) (s : Engine σ) (x : Record) : Option Record :=
  if s.isTappingReleased && x.event.pressed && s.isTappingKey x.event.key &&
      (withinTappingTerm env s x.event || maybeRetroShifting env s x.event) &&
      (withinQuickTapTerm env s x.event && !s.tappingKey.tap.interrupted && 0 < s.tappingKey.tap.count) then
    some { x with
      tap := { s.tappingKey.tap with
        count := if s.tappingKey.tap.count < 15 then s.tappingKey.tap.count + 1 else s.tappingKey.tap.count } }
  else none

/-- A sequential tap is a tap again, and not interrupted. -/
theorem sequentialTap_spec {y : Record} (h : sequentialTap env s x = some y) :
    ∃ count, 1 < count ∧ y = { x with tap := ⟨false, count⟩ } := by
  rw [sequentialTap] at h
  split at h
  case isFalse => cases h
  case isTrue quick =>
    simp only [Bool.and_eq_true, Bool.not_eq_true', decide_eq_true_eq] at quick
    cases h
    refine ⟨if s.tappingKey.tap.count < 15 then s.tappingKey.tap.count + 1 else s.tappingKey.tap.count, ?_, ?_⟩
    · split <;> omega
    · simp only [quick.2.1.2]

/-- Its press is not cancelled. -/
theorem sequentialTap_uncancelled {y : Record} (h : sequentialTap env s x = some y) (keyboard : σ) :
    cancels env keyboard y = false := by
  obtain ⟨count, -, rfl⟩ := sequentialTap_spec h
  simp [cancels]

/-- The outcomes of `process_tapping`: the record left over, `none` if it has been
dealt with, and the state. -/
inductive Call (env : Env σ) (s : Engine σ) (x : Record) : Option Record × Engine σ → Prop where
  /-- the release of the undecided key itself makes it a tap -/
  | firstTap (undecided : s.tappingKey.Undecided) (own : x.event.key = s.tappingKey.event.key)
      (released : x.event.pressed = false)
      (inTerm : (withinTappingTerm env s x.event || maybeRetroShifting env s x.event) = true) {t : Engine σ} (ht : t = processTappingKey env
        { s with
          keyboard := env.retroShiftSwapTimes s.keyboard
          tappingKey := s.tappingKey.withCount 1 }) :
      Call env s x (some { x with tap := t.tappingKey.tap }, t)
  /-- the undecided key is held -/
  | ended (undecided : s.tappingKey.Undecided) (b : Bool) :
      Call env s x (some x, endTapping env { s with tappingKey := s.tappingKey.withInterrupted b })
  /-- the record has to wait -/
  | waits (undecided : s.tappingKey.Undecided) (b : Bool) :
      Call env s x (some x, { s with tappingKey := s.tappingKey.withInterrupted b })
  /-- the release of a key pressed before the undecided one -/
  | early (undecided : s.tappingKey.Undecided) (other : x.event.key ≠ s.tappingKey.event.key)
      (released : x.event.isReleased = true) (untyped : s.waitingBufferTyped x.event = false)
      (unretained : retainsRelease (env.layerSwitchGetAction s.keyboard x.event.key) x.tap.count = false) :
      Call env s x (none, (process env s x false).2)
  /-- the release of the tapped key -/
  | tapRelease (tapped : s.tappingKey.Tapped) (own : x.event.key = s.tappingKey.event.key)
      (released : x.event.pressed = false) {t : Record}
      (ht : t = .empty ∨ t = { x with tap := s.tappingKey.tap }) :
      Call env s x
        (none, { (process env s { x with tap := s.tappingKey.tap } false).2 with tappingKey := t })
  /-- a tap key is pressed while another one is tapped more than once -/
  | interrupts (tapped : s.tappingKey.Tapped) (many : 1 < s.tappingKey.tap.count)
      (pressed : x.event.pressed = true) (tapRecord : isTapRecord env s x = true) {t : Engine σ}
      (ht : t = (process env s ⟨⟨s.tappingKey.event.key, false, x.event.time⟩, s.tappingKey.tap⟩ true).2) :
      Call env s x (none, waitingBufferScanTap env { t with tappingKey := x })
  /-- a tap key is pressed -/
  | starts (decided : ¬ s.tappingKey.Undecided) (single : s.tappingKey.Tapped → s.tappingKey.tap.count ≤ 1)
      (pressed : x.event.pressed = true) (tapRecord : isTapRecord env s x = true) {keyboard : σ}
      (hk : keyboard = s.keyboard ∨ keyboard = env.processRecordTapHint s.keyboard x) :
      Call env s x (none, waitingBufferScanTap env { s with tappingKey := x, keyboard })
  /-- the released key is pressed again, too late for a sequential tap -/
  | again (up : s.isTappingReleased = true) (own : x.event.key = s.tappingKey.event.key)
      (pressed : x.event.pressed = true) : Call env s x (none, { s with tappingKey := x })
  /-- the released key is tapped once more -/
  | sequential (up : s.isTappingReleased = true) (own : x.event.key = s.tappingKey.event.key)
      (pressed : x.event.pressed = true) {y : Record} (tap : sequentialTap env s x = some y) :
      Call env s x
        (none, { (process env s y false).2 with tappingKey := written env s.keyboard y })
  /-- the record goes straight to `process_record` -/
  | direct (decided : ¬ s.tappingKey.Undecided)
      (other : s.tappingKey.Tapped → x.event.key = s.tappingKey.event.key → x.event.pressed = true)
      (b : Bool) (hb : b = s.tappingKey.tap.interrupted ∨ s.isTappingReleased = true) :
      Call env s x
        (none, (process env { s with tappingKey := s.tappingKey.withInterrupted b } x false).2)
  /-- the time for a sequential tap is over -/
  | expired (up : s.isTappingReleased = true) : Call env s x (some x, { s with tappingKey := .empty })

theorem isTappingKey_iff (key : KeyPos) (h : s.tappingKey.event.isEvent = true) :
    s.isTappingKey key = true ↔ key = s.tappingKey.event.key := by
  simp only [Engine.isTappingKey, h, Bool.true_and, beq_iff_eq]
  exact eq_comm

theorem processUndecided_call (h : s.tappingKey.Undecided)
    (inTerm : (withinTappingTerm env s x.event || maybeRetroShifting env s x.event) = true) :
    Call env s x (processUndecided env s x) := by
  have key := isTappingKey_iff x.event.key h.1
  rw [processUndecided]
  by_cases own : (s.isTappingKey x.event.key && !x.event.pressed) = true
  · simp only [if_pos own]
    rw [Bool.and_eq_true, key, Bool.not_eq_true'] at own
    exact .firstTap h own.1 own.2 inTerm rfl
  · simp only [if_neg own]
    split
    case isTrue => exact .ended h s.tappingKey.tap.interrupted
    case isFalse =>
      split
      case isTrue early =>
        rw [Bool.and_eq_true, Bool.not_eq_true'] at early
        split
        case isTrue => exact .waits h s.tappingKey.tap.interrupted
        case isFalse unretained =>
          refine .early h (fun e => own ?_) early.1 early.2 (by simpa using unretained)
          have up : x.event.pressed = false := by
            have := early.1
            simp only [KeyEvent.isReleased, Bool.and_eq_true, Bool.not_eq_true'] at this
            exact this.2
          rw [Bool.and_eq_true, key, up]
          exact ⟨e, rfl⟩
      case isFalse =>
        split
        case isTrue =>
          split
          case isTrue => exact .ended h true
          case isFalse => exact .waits h true
        case isFalse => exact .waits h s.tappingKey.tap.interrupted

theorem processTapped_call (expired : Bool) (h : s.tappingKey.Tapped) :
    Call env s x (processTapped env expired s x) := by
  have key := isTappingKey_iff x.event.key h.1
  have decided : ¬ s.tappingKey.Undecided := fun u => h.2.2 u.2.2
  rw [processTapped]
  by_cases own : (s.isTappingKey x.event.key && !x.event.pressed) = true
  · rw [if_pos own]
    rw [Bool.and_eq_true, key, Bool.not_eq_true'] at own
    refine .tapRelease h own.1 own.2
      (t := if expired then .empty else written env s.keyboard { x with tap := s.tappingKey.tap }) ?_
    cases expired
    · exact written_of_released (r := { x with tap := s.tappingKey.tap }) own.2
    · exact Or.inl rfl
  · rw [if_neg own]
    split
    case isTrue tap =>
      rw [Bool.and_eq_true] at tap
      split
      case isTrue many => exact .interrupts h many tap.2 tap.1 rfl
      case isFalse single =>
        exact .starts decided (fun _ => Nat.le_of_not_lt single) tap.2 tap.1 (Or.inl rfl)
    case isFalse =>
      refine .direct decided (fun _ e => ?_) s.tappingKey.tap.interrupted (Or.inl rfl)
      rw [Bool.and_eq_true, key] at own
      simpa [e] using own

theorem processReleased_call (h : s.isTappingReleased = true) : Call env s x (processReleased env s x) := by
  have up := h
  simp only [Engine.isTappingReleased, Bool.and_eq_true, Bool.not_eq_true'] at up
  have key := isTappingKey_iff x.event.key up.1
  have decided : ¬ s.tappingKey.Undecided := fun u => by simp [u.2.1] at up
  have untapped : ¬ s.tappingKey.Tapped := fun u => by simp [u.2.1] at up
  rw [processReleased]
  split
  case isTrue inTerm =>
    split
    case isTrue pressed =>
      split
      case isTrue own =>
        split
        case isTrue quick =>
          exact .sequential h (key.1 own) pressed (by rw [sequentialTap, h, pressed, own, inTerm, quick]; rfl)
        case isFalse => exact .again h (key.1 own) pressed
      case isFalse =>
        split
        case isTrue tap => exact .starts decided (fun t => absurd t untapped) pressed tap (Or.inl rfl)
        case isFalse => exact .direct decided (fun t => absurd t untapped) true (Or.inr h)
    case isFalse =>
      exact .direct decided (fun t => absurd t untapped) s.tappingKey.tap.interrupted (Or.inl rfl)
  case isFalse => exact .expired h

variable (env) in
theorem processTapping_call (s : Engine σ) (x : Record) : Call env s x (processTapping env s x) := by
  rw [processTapping]
  split
  case isTrue pressed =>
    simp only [Engine.isTappingPressed, Bool.and_eq_true] at pressed
    split
    case isTrue inTerm =>
      split
      case isTrue zero => exact processUndecided_call ⟨pressed.1, pressed.2, zero⟩ inTerm
      case isFalse pos => exact processTapped_call false ⟨pressed.1, pressed.2, pos⟩
    case isFalse =>
      split
      case isTrue zero => exact .ended ⟨pressed.1, pressed.2, zero⟩ s.tappingKey.tap.interrupted
      case isFalse pos => exact processTapped_call true ⟨pressed.1, pressed.2, pos⟩
  case isFalse unpressed =>
    simp only [Engine.isTappingPressed, Bool.and_eq_true] at unpressed
    have decided : ¬ s.tappingKey.Undecided := fun u => unpressed ⟨u.1, u.2.1⟩
    have untapped : ¬ s.tappingKey.Tapped := fun u => unpressed ⟨u.1, u.2.1⟩
    split
    case isTrue up => exact processReleased_call up
    case isFalse =>
      rw [processIdle]
      split
      case isTrue tap =>
        rw [Bool.and_eq_true] at tap
        exact .starts decided (fun t => absurd t untapped) tap.1 tap.2 (Or.inr rfl)
      case isFalse =>
        exact .direct decided (fun t => absurd t untapped) s.tappingKey.tap.interrupted (Or.inl rfl)

end QmkFirmware.Tapping
