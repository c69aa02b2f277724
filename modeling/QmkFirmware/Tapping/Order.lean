import QmkFirmware.Lib.Run
import QmkFirmware.Tapping.Call

/-!
# The order of the records of a key

Whatever the settings, the events of a key that were handed out, followed by those
that wait, are the events received: the press of the undecided tapping key comes
before the waiting buffer. Two things break this. An event may come in while
another one of its key is left in the buffer though no tapping key is undecided,
and is then not held back. And the press of an interrupted mod-tap is handed out a
second time when `process_action` has cancelled the tap.
-/

namespace QmkFirmware.Tapping

variable {σ : Type}

/-! ## Events handed out and waiting -/

/-- The events of one key. -/
def keyEvents (key : KeyPos) (events : List KeyEvent) : List KeyEvent :=
  events.filter fun event => event.key == key

@[simp] theorem keyEvents_nil (key : KeyPos) : keyEvents key [] = [] := rfl

@[simp] theorem keyEvents_append (key : KeyPos) (l l' : List KeyEvent) :
    keyEvents key (l ++ l') = keyEvents key l ++ keyEvents key l' :=
  List.filter_append _ _

theorem keyEvents_cons (key : KeyPos) (e : KeyEvent) (l : List KeyEvent) :
    keyEvents key (e :: l) = keyEvents key [e] ++ keyEvents key l := by
  rw [← keyEvents_append]
  rfl

theorem keyEvents_of_ne {key : KeyPos} {e : KeyEvent} (h : e.key ≠ key) : keyEvents key [e] = [] := by
  simp [keyEvents, h]

/-- No event of the key in the list. -/
theorem keyEvents_eq_nil {key : KeyPos} {l : List KeyEvent} :
    keyEvents key l = [] ↔ ∀ e ∈ l, e.key ≠ key := by
  simp [keyEvents]

/-- The events of the records handed out, without the releases made up. -/
def handedEvents (handed : List Handed) : List KeyEvent :=
  (handed.filter fun h => !h.synthesised).map fun h => h.record.event

@[simp] theorem handedEvents_append (l l' : List Handed) :
    handedEvents (l ++ l') = handedEvents l ++ handedEvents l' := by
  simp [handedEvents]

@[simp] theorem handedEvents_received (r : Record) : handedEvents [⟨r, false⟩] = [r.event] := rfl

@[simp] theorem handedEvents_synthesised (r : Record) : handedEvents [⟨r, true⟩] = [] := rfl

/-- The press of the undecided tapping key. -/
def undecidedEvents (tappingKey : Record) : List KeyEvent :=
  if tappingKey.Undecided then [tappingKey.event] else []

/-- The events received and not handed out yet. -/
def Engine.waiting (s : Engine σ) : List KeyEvent :=
  undecidedEvents s.tappingKey ++ s.waitingBuffer.map Record.event

/-- No event waits any more. -/
def Engine.Drained (s : Engine σ) : Prop := s.waitingBuffer = [] ∧ ¬ s.tappingKey.Undecided

instance (s : Engine σ) : Decidable s.Drained := inferInstanceAs (Decidable (_ ∧ _))

theorem undecidedEvents_of_undecided {t : Record} (h : t.Undecided) : undecidedEvents t = [t.event] :=
  if_pos h

theorem undecidedEvents_of_decided {t : Record} (h : ¬ t.Undecided) : undecidedEvents t = [] :=
  if_neg h

@[simp] theorem undecidedEvents_empty : undecidedEvents .empty = [] := rfl

@[simp] theorem undecidedEvents_withInterrupted (t : Record) (b : Bool) :
    undecidedEvents (t.withInterrupted b) = undecidedEvents t := rfl

section Calls

variable {env : Env σ} {s t : Engine σ} {x : Record}

theorem isTappingReleased_decided (up : s.isTappingReleased = true) : ¬ s.tappingKey.Undecided := by
  intro undecided
  simp [Engine.isTappingReleased, undecided.2.1] at up

/-! ## The calls of a step -/

/-- The calls of `process_tapping` that the loop over the buffer makes, each with
its state and its record. -/
def bufferCalls (env : Env σ) : Nat → Engine σ → List (Engine σ × Record)
  | 0, _ => []
  | fuel + 1, s =>
    match s.waitingBuffer with
    | [] => []
    | record :: _ => (s, record) ::
      match processTapping env s record with
      | (none, s) => bufferCalls env fuel { s with waitingBuffer := s.waitingBuffer.tail }
      | (some _, _) => []

theorem processWaitingBuffer_nil {fuel : Nat} (h : s.waitingBuffer = []) :
    processWaitingBuffer env fuel s = s := by
  cases fuel with
  | zero => rfl
  | succ fuel => rw [processWaitingBuffer, h]

theorem processWaitingBuffer_cons {fuel : Nat} {l : List Record} (h : s.waitingBuffer = x :: l) :
    processWaitingBuffer env (fuel + 1) s =
      match processTapping env s x with
      | (none, s) => processWaitingBuffer env fuel { s with waitingBuffer := s.waitingBuffer.tail }
      | (some y, s) => { s with waitingBuffer := y :: s.waitingBuffer.tail } := by
  have step := processWaitingBuffer.eq_2 env s fuel
  rw [h] at step
  exact step

theorem bufferCalls_cons {fuel : Nat} {l : List Record} (h : s.waitingBuffer = x :: l) :
    bufferCalls env (fuel + 1) s = (s, x) ::
      match processTapping env s x with
      | (none, s) => bufferCalls env fuel { s with waitingBuffer := s.waitingBuffer.tail }
      | (some _, _) => [] := by
  rw [bufferCalls, h]

/-- All calls of `process_tapping` that `action_tapping_process` makes. -/
def calls (env : Env σ) (s : Engine σ) (record : Record) : List (Engine σ × Record) :=
  (s, record) :: bufferCalls env (processOrEnqueue env s record).waitingBuffer.length
    (processOrEnqueue env s record)

/-- The call makes the undecided key a tap, and `process_action` cancels it. -/
def CancelsTap (env : Env σ) (s : Engine σ) (x : Record) : Prop :=
  s.tappingKey.Undecided ∧ x.event.key = s.tappingKey.event.key ∧ x.event.pressed = false ∧
    (withinTappingTerm env s x.event || maybeRetroShifting env s x.event) = true ∧
    cancels env (env.retroShiftSwapTimes s.keyboard) (s.tappingKey.withCount 1) = true

instance (env : Env σ) (s : Engine σ) (x : Record) : Decidable (CancelsTap env s x) :=
  inferInstanceAs (Decidable (_ ∧ _))

/-- The record is refused and there is no room for it. -/
def Overflows (env : Env σ) (s : Engine σ) (x : Record) : Prop :=
  (processTapping env s x).1 ≠ none ∧ x.event.isEvent = true ∧
    s.waitingBuffer.length + 1 = waitingBufferSize

instance (env : Env σ) (s : Engine σ) (x : Record) : Decidable (Overflows env s x) :=
  inferInstanceAs (Decidable (_ ∧ _))

/-- The event finds no event of its key in the buffer, or an undecided tapping key
that holds it back as well: a release if a press of its key waits or if it is retained. -/
def InTurn (env : Env σ) (s : Engine σ) (event : KeyEvent) : Prop :=
  (∀ r ∈ s.waitingBuffer, r.event.key ≠ event.key) ∨
    s.tappingKey.Undecided ∧ (event.pressed = true ∨ s.waitingBufferTyped event = true ∨
      retainsRelease (env.layerSwitchGetAction s.keyboard event.key) event.record.tap.count = true)

instance (env : Env σ) (s : Engine σ) (event : KeyEvent) : Decidable (InTurn env s event) :=
  inferInstanceAs (Decidable (_ ∨ _))

/-! ## One call -/

/-- A tick, or an event with a time. -/
def KeyEvent.WellFormed (event : KeyEvent) : Prop :=
  event.key = tickPos ∧ event.pressed = false ∨ event.isEvent = true

instance (event : KeyEvent) : Decidable event.WellFormed := inferInstanceAs (Decidable (_ ∨ _))

/-- A press has not been written to. -/
def Record.Fresh (r : Record) : Prop := r.event.pressed = true → r.tap = ⟨false, 0⟩

theorem markFirst_mem {p : Record → Bool} {l l' : List Record} (h : markFirst p l = some l') {r : Record}
    (hr : r ∈ l') : r ∈ l ∨ ∃ b ∈ l, p b = true ∧ r = b.withCount 1 := by
  induction l generalizing l' with
  | nil => cases h
  | cons b l ih =>
    rw [markFirst] at h
    split at h
    case isTrue hp =>
      cases h
      rcases List.mem_cons.1 hr with rfl | hr
      · exact Or.inr ⟨b, List.mem_cons_self, hp, rfl⟩
      · exact Or.inl (List.mem_cons_of_mem _ hr)
    case isFalse =>
      obtain ⟨m, hm, rfl⟩ := Option.map_eq_some_iff.1 h
      rcases List.mem_cons.1 hr with rfl | hr
      · exact Or.inl List.mem_cons_self
      · rcases ih hm hr with h | ⟨c, hc, e⟩
        · exact Or.inl (List.mem_cons_of_mem _ h)
        · exact Or.inr ⟨c, List.mem_cons_of_mem _ hc, e⟩

variable (env) in
/-- What a scan leaves of a fresh tapping key. -/
theorem waitingBufferScanTap_flow (fresh : s.tappingKey.tap = ⟨false, 0⟩)
    (down : s.tappingKey.event.pressed = true) (isEvent : s.tappingKey.event.isEvent = true) :
    ∃ t, t = waitingBufferScanTap env s ∧
      handedEvents t.handed ++ undecidedEvents t.tappingKey =
        handedEvents s.handed ++ [s.tappingKey.event] ∧
      t.waitingBuffer.map Record.event = s.waitingBuffer.map Record.event ∧
      ((∀ r ∈ s.waitingBuffer, r.Fresh) → ∀ r ∈ t.waitingBuffer, r.Fresh) := by
  refine ⟨_, rfl, ?_⟩
  have undecided : s.tappingKey.Undecided := ⟨isEvent, down, by rw [fresh]⟩
  rcases waitingBufferScanTap_cases env s with e | ⟨wb, -, -, found, e⟩
  · rw [e, undecidedEvents_of_undecided undecided]
    exact ⟨rfl, rfl, fun h => h⟩
  · have calm : cancels env s.keyboard (s.tappingKey.withCount 1) = false := by
      simp [cancels, Record.withCount, fresh]
    have decided := written_decided calm (r := s.tappingKey.withCount 1) fun u => by simpa using u.2.2
    rw [e]
    refine ⟨?_, markFirst_events found, fun h r hr => ?_⟩
    · simp [processTappingKey, undecidedEvents_of_decided decided]
    · rcases markFirst_mem found hr with hr | ⟨b, hb, hp, rfl⟩
      · exact h r hr
      · intro up
        simp only [scanned, Bool.and_eq_true, Bool.not_eq_true'] at hp
        rw [Record.withCount_event, hp.1.2] at up
        cases up

/-- A call moves the events of every key on in their order. -/
theorem Call.flow {o : Option Record} (h : Call env s x (o, t)) (wf : x.event.WellFormed) (fresh : x.Fresh)
    (uncancelled : ¬ CancelsTap env s x) (key : KeyPos) :
    keyEvents key (handedEvents t.handed ++ undecidedEvents t.tappingKey) ++
        keyEvents key (o.toList.map Record.event) =
      keyEvents key (handedEvents s.handed ++ undecidedEvents s.tappingKey) ++ keyEvents key [x.event] ∧
    t.waitingBuffer.map Record.event = s.waitingBuffer.map Record.event ∧
    ((∀ r ∈ s.waitingBuffer, r.Fresh) → ∀ r ∈ t.waitingBuffer, r.Fresh) ∧
    ∀ y, o = some y → y.event = x.event ∧ y.Fresh := by
  cases h with
  | firstTap undecided own released inTerm ht =>
    have calm : cancels env (env.retroShiftSwapTimes s.keyboard) (s.tappingKey.withCount 1) = false := by
      rw [← Bool.not_eq_true]
      exact fun c => uncancelled ⟨undecided, own, released, inTerm, c⟩
    have decided := written_decided calm fun u => by simpa using u.2.2
    subst ht
    refine ⟨?_, rfl, fun h => h, ?_⟩
    · simp [processTappingKey, undecidedEvents_of_decided decided, undecidedEvents_of_undecided undecided]
    · rintro y ⟨⟩
      exact ⟨rfl, fun down => by rw [released] at down; cases down⟩
  | ended undecided b =>
    refine ⟨?_, rfl, fun h => h, ?_⟩
    · simp only [endTapping, processTappingKey, process_handed, Record.withInterrupted_event,
        undecidedEvents_of_decided Record.empty_not_undecided, undecidedEvents_of_undecided undecided,
        handedEvents_append, handedEvents_received]
      simp
    · rintro y ⟨⟩
      exact ⟨rfl, fresh⟩
  | waits undecided b =>
    refine ⟨by simp, rfl, fun h => h, ?_⟩
    rintro y ⟨⟩
    exact ⟨rfl, fresh⟩
  | early undecided other released untyped unretained =>
    refine ⟨?_, rfl, fun h => h, by simp⟩
    simp only [process_handed, process_tappingKey, handedEvents_append, handedEvents_received,
      undecidedEvents_of_undecided undecided, keyEvents_append]
    -- the event overtakes the press of another key only
    by_cases hk : x.event.key = key
    · rw [keyEvents_of_ne fun e => other (hk.trans e.symm)]
      simp
    · rw [keyEvents_of_ne hk]
      simp
  | tapRelease tapped own released ht =>
    refine ⟨?_, rfl, fun h => h, by simp⟩
    have decided : ¬ s.tappingKey.Undecided := fun u => tapped.2.2 u.2.2
    rename_i t'
    have decided' : ¬ t'.Undecided := by
      rcases ht with rfl | rfl
      · simp
      · exact fun u => by simpa [released] using u.2.1
    simp [undecidedEvents_of_decided decided, undecidedEvents_of_decided decided']
  | interrupts tapped many pressed tapRecord ht =>
    rename_i u
    subst ht
    have decided : ¬ s.tappingKey.Undecided := fun u => tapped.2.2 u.2.2
    simp only [isTapRecord, Bool.and_eq_true] at tapRecord
    obtain ⟨t, rfl, flow, wb, fr⟩ := waitingBufferScanTap_flow env
      (s := { (process env s ⟨⟨s.tappingKey.event.key, false, x.event.time⟩, s.tappingKey.tap⟩ true).2 with
        tappingKey := x }) (fresh pressed) pressed tapRecord.1
    refine ⟨?_, wb, fr, by simp⟩
    rw [flow]
    simp [undecidedEvents_of_decided decided]
  | starts decided single pressed tapRecord hk =>
    simp only [isTapRecord, Bool.and_eq_true] at tapRecord
    rename_i keyboard
    obtain ⟨t, rfl, flow, wb, fr⟩ := waitingBufferScanTap_flow env
      (s := { s with tappingKey := x, keyboard }) (fresh pressed) pressed tapRecord.1
    refine ⟨?_, wb, fr, by simp⟩
    rw [flow]
    simp [undecidedEvents_of_decided decided]
  | again up own pressed =>
    have decided := isTappingReleased_decided up
    simp only [Engine.isTappingReleased, Bool.and_eq_true, Bool.not_eq_true'] at up
    have undecided : x.Undecided := by
      refine ⟨wf.resolve_left fun tick => ?_, pressed, by rw [fresh pressed]⟩
      simpa [KeyEvent.isEvent, KeyEvent.isNoEvent, ← own, tick.1] using up.1
    refine ⟨?_, rfl, fun h => h, by simp⟩
    simp [undecidedEvents_of_decided decided, undecidedEvents_of_undecided undecided]
  | sequential up own pressed tap =>
    have decided := isTappingReleased_decided up
    have calm := sequentialTap_uncancelled tap s.keyboard
    obtain ⟨count, many, rfl⟩ := sequentialTap_spec tap
    have decided' := written_decided calm fun u => by
      exact absurd u.2.2 (by simp only; omega)
    refine ⟨?_, rfl, fun h => h, by simp⟩
    simp [undecidedEvents_of_decided decided, undecidedEvents_of_decided decided']
  | direct decided other b hb =>
    refine ⟨?_, rfl, fun h => h, by simp⟩
    simp [undecidedEvents_of_decided decided]
  | expired up =>
    refine ⟨?_, rfl, fun h => h, ?_⟩
    · simp [undecidedEvents_of_decided (isTappingReleased_decided up)]
    · rintro y ⟨⟩
      exact ⟨rfl, fresh⟩

/-- An undecided key lets no record of a key in the buffer pass. -/
theorem Call.early_of_undecided (h : Call env s x (none, t)) (undecided : s.tappingKey.Undecided) :
    x.event.pressed = false ∧ s.waitingBufferTyped x.event = false ∧
      retainsRelease (env.layerSwitchGetAction s.keyboard x.event.key) x.tap.count = false := by
  cases h with
  | early _ _ released untyped unretained =>
    simp only [KeyEvent.isReleased, Bool.and_eq_true, Bool.not_eq_true'] at released
    exact ⟨released.2, untyped, unretained⟩
  | tapRelease tapped => exact absurd undecided.2.2 tapped.2.2
  | interrupts tapped => exact absurd undecided.2.2 tapped.2.2
  | starts decided => exact absurd undecided decided
  | again up => simp [Engine.isTappingReleased, undecided.2.1] at up
  | sequential up => simp [Engine.isTappingReleased, undecided.2.1] at up
  | direct decided => exact absurd undecided decided

/-! ## One step -/

/-- The events of a key, those handed out before those that wait. -/
def Engine.flow (s : Engine σ) (key : KeyPos) : List KeyEvent :=
  keyEvents key (handedEvents s.handed ++ s.waiting)

/-- What the code writes into a record that waits. -/
def Engine.Settled (s : Engine σ) : Prop := ∀ r ∈ s.waitingBuffer, r.event.WellFormed ∧ r.Fresh

theorem Engine.flow_eq (s : Engine σ) (key : KeyPos) :
    s.flow key = keyEvents key (handedEvents s.handed ++ undecidedEvents s.tappingKey) ++
      keyEvents key (s.waitingBuffer.map Record.event) := by
  rw [Engine.flow, Engine.waiting, ← List.append_assoc, keyEvents_append]

theorem Engine.Settled.congr (h : s.Settled)
    (events : t.waitingBuffer.map Record.event = s.waitingBuffer.map Record.event)
    (fresh : (∀ r ∈ s.waitingBuffer, r.Fresh) → ∀ r ∈ t.waitingBuffer, r.Fresh) : t.Settled := by
  intro r hr
  refine ⟨?_, fresh (fun r hr => (h r hr).2) r hr⟩
  have mem : r.event ∈ s.waitingBuffer.map Record.event := events ▸ List.mem_map_of_mem hr
  obtain ⟨r', hr', e⟩ := List.mem_map.1 mem
  rw [← e]
  exact (h r' hr').1

/-- The call on the first record of the buffer leaves every event in its place. -/
theorem Call.head_flow {l : List Record} {o : Option Record} (h : Call env s x (o, t))
    (hs : s.waitingBuffer = x :: l) (settled : s.Settled) (uncancelled : ¬ CancelsTap env s x) :
    Engine.Settled { t with waitingBuffer := o.toList ++ t.waitingBuffer.tail } ∧
      ∀ key, Engine.flow { t with waitingBuffer := o.toList ++ t.waitingBuffer.tail } key = s.flow key := by
  have hx := settled x (hs ▸ List.mem_cons_self)
  have flow := h.flow hx.1 hx.2 uncancelled
  have tail : t.waitingBuffer.tail.map Record.event = l.map Record.event := by
    rw [List.map_tail, (flow x.event.key).2.1, hs]
    rfl
  constructor
  · have later : t.Settled := settled.congr (flow x.event.key).2.1 (flow x.event.key).2.2.1
    intro r hr
    rcases List.mem_append.1 hr with hr | hr
    · obtain ⟨same, fresh⟩ := (flow x.event.key).2.2.2 r (Option.mem_toList.1 hr)
      exact ⟨same ▸ hx.1, fresh⟩
    · exact later r (List.mem_of_mem_tail hr)
  · intro key
    have moved := (flow key).1
    rw [Engine.flow_eq, Engine.flow_eq, hs, List.map_append, tail, List.map_cons,
      keyEvents_append key (o.toList.map Record.event), keyEvents_cons key x.event, ← List.append_assoc,
      ← List.append_assoc, ← moved]

/-- The loop over the buffer leaves every event in its place. -/
theorem processWaitingBuffer_flow (fuel : Nat) (settled : s.Settled)
    (uncancelled : ∀ c ∈ bufferCalls env fuel s, ¬ CancelsTap env c.1 c.2) :
    (processWaitingBuffer env fuel s).Settled ∧
      ∀ key, (processWaitingBuffer env fuel s).flow key = s.flow key := by
  induction fuel generalizing s with
  | zero => exact ⟨settled, fun key => rfl⟩
  | succ fuel ih =>
    match hs : s.waitingBuffer with
    | [] =>
      rw [processWaitingBuffer_nil hs]
      exact ⟨settled, fun key => rfl⟩
    | record :: l =>
      have call := processTapping_call env s record
      rw [bufferCalls_cons hs, List.forall_mem_cons] at uncancelled
      rw [processWaitingBuffer_cons hs]
      obtain ⟨here, uncancelled⟩ := uncancelled
      generalize processTapping env s record = result at call uncancelled
      obtain ⟨o, t⟩ := result
      obtain ⟨settled', flow⟩ := call.head_flow hs settled here
      cases o with
      | none =>
        obtain ⟨settled'', flow'⟩ := ih (s := { t with waitingBuffer := t.waitingBuffer.tail }) settled'
          uncancelled
        exact ⟨settled'', fun key => (flow' key).trans (flow key)⟩
      | some y => exact ⟨settled', flow⟩

/-- The call on an event that comes in puts it behind the other events of its key. -/
theorem processOrEnqueue_flow {event : KeyEvent} (settled : s.Settled) (wf : event.WellFormed)
    (inTurn : InTurn env s event) (room : ¬ Overflows env s event.record)
    (uncancelled : ¬ CancelsTap env s event.record) :
    (processOrEnqueue env s event.record).Settled ∧ ∀ key, key ≠ tickPos →
      (processOrEnqueue env s event.record).flow key = s.flow key ++ keyEvents key [event] := by
  have call := processTapping_call env s event.record
  rw [Overflows] at room
  rw [processOrEnqueue]
  generalize processTapping env s event.record = result at call room
  obtain ⟨o, t⟩ := result
  have flow := call.flow wf (fun _ => rfl) uncancelled
  have settled' : t.Settled := settled.congr (flow event.key).2.1 (flow event.key).2.2.1
  cases o with
  | none =>
    refine ⟨settled', fun key _ => ?_⟩
    have swap : keyEvents key [event] ++ keyEvents key (s.waitingBuffer.map Record.event) =
        keyEvents key (s.waitingBuffer.map Record.event) ++ keyEvents key [event] := by
      by_cases hk : event.key = key
      · rcases inTurn with clear | ⟨undecided, held⟩
        · have none : keyEvents key (s.waitingBuffer.map Record.event) = [] :=
            keyEvents_eq_nil.2 (by simpa [hk] using clear)
          rw [none]
          simp
        · obtain ⟨released, untyped, unretained⟩ := call.early_of_undecided undecided
          rcases held with pressed | typed | retained
          · exact absurd (pressed.symm.trans released) (by decide)
          · exact absurd (typed.symm.trans untyped) (by decide)
          · exact absurd (retained.symm.trans unretained) (by decide)
      · rw [keyEvents_of_ne hk]
        simp
    have moved := (flow key).1
    simp only [Option.toList_none, List.map_nil, keyEvents_nil, List.append_nil] at moved
    rw [Engine.flow_eq, Engine.flow_eq, (flow key).2.1, moved, List.append_assoc, List.append_assoc]
    exact congrArg _ swap
  | some y =>
    obtain ⟨same, fresh⟩ := (flow event.key).2.2.2 y rfl
    rw [KeyEvent.record_event] at same
    have kept : ∀ key, keyEvents key (handedEvents t.handed ++ undecidedEvents t.tappingKey) =
        keyEvents key (handedEvents s.handed ++ undecidedEvents s.tappingKey) := by
      intro key
      have moved := (flow key).1
      simp only [Option.toList_some, List.map_cons, List.map_nil, same, KeyEvent.record_event] at moved
      exact List.append_cancel_right moved
    have length : t.waitingBuffer.length = s.waitingBuffer.length := by
      simpa using congrArg List.length (flow event.key).2.1
    simp only [Engine.waitingBufferEnq, same]
    by_cases tick : event.isNoEvent = true
    · rw [if_pos tick]
      refine ⟨settled', fun key hk => ?_⟩
      have isTick : event.key = tickPos := by
        rcases wf with h | h
        · exact h.1
        · rw [KeyEvent.isEvent, tick] at h
          cases h
      have other : event.key ≠ key := fun e => hk (e ▸ isTick)
      rw [keyEvents_of_ne other, List.append_nil, Option.getD_some, Engine.flow_eq,
        Engine.flow_eq, kept key, (flow key).2.1]
    · have isEvent : event.isEvent = true := by simpa [KeyEvent.isEvent] using tick
      rw [if_neg tick, if_neg fun full => room ⟨by simp, isEvent, by rw [← length]; exact full⟩,
        Option.getD_some]
      constructor
      · intro r hr
        rcases List.mem_append.1 hr with hr | hr
        · exact settled' r hr
        · rw [List.mem_singleton.1 hr]
          exact ⟨same ▸ wf, fresh⟩
      · intro key _
        rw [Engine.flow_eq, Engine.flow_eq, kept key, List.map_append, (flow key).2.1, keyEvents_append key
          (s.waitingBuffer.map _)]
        simp only [List.map_cons, List.map_nil, same, List.append_assoc]

end Calls

/-! ## Runs -/

section Runs

variable (env : Env σ)

/-- The step on an event keeps the order: the event finds no event of its key left
behind, and no tap is cancelled after it has been handed out. -/
def KeepsOrder (s : Engine σ) (event : KeyEvent) : Prop :=
  InTurn env s event ∧ ∀ c ∈ calls env s event.record, ¬ CancelsTap env c.1 c.2

instance (s : Engine σ) (event : KeyEvent) : Decidable (KeepsOrder env s event) :=
  inferInstanceAs (Decidable (_ ∧ _))

/-- A step of `action_tapping_process` on an event. -/
def step (s : Engine σ) (event : KeyEvent) : Engine σ := actionTappingProcess env s event.record

/-- The events of every key but the ticks are handed out or wait, in their order. -/
def InOrder (s : Engine σ) (events : List KeyEvent) : Prop :=
  s.Settled ∧ ∀ key, key ≠ tickPos → s.flow key = keyEvents key events

theorem InOrder.step {s : Engine σ} {past : List KeyEvent} {event : KeyEvent} (h : InOrder s past)
    (wf : event.WellFormed) (room : ¬ Overflows env s event.record) (keeps : KeepsOrder env s event) :
    InOrder (step env s event) (past ++ [event]) := by
  obtain ⟨settled, flow⟩ := processOrEnqueue_flow h.1 wf keeps.1 room
    (keeps.2 _ List.mem_cons_self)
  obtain ⟨settled', flow'⟩ := processWaitingBuffer_flow
    (processOrEnqueue env s event.record).waitingBuffer.length settled
    fun c hc => keeps.2 c (List.mem_cons_of_mem _ hc)
  refine ⟨settled', fun key hk => ?_⟩
  rw [keyEvents_append, ← h.2 key hk, ← flow key hk]
  exact flow' key

theorem InOrder.run {s : Engine σ} {past events : List KeyEvent} (h : InOrder s past)
    (wf : ∀ e ∈ events, e.WellFormed)
    (room : Lib.Along (Tapping.step env) (fun s e => ¬ Overflows env s e.record) s events)
    (keeps : Lib.Along (Tapping.step env) (KeepsOrder env) s events) :
    InOrder (run env s events) (past ++ events) :=
  (((Lib.Along.of_forall wf).and room).and keeps).run InOrder
    (fun _ _ _ h p => h.step env p.1.1 p.1.2 p.2) past h

/-- The records of a key are handed out in the order of its events, each once, and
those that are not handed out yet wait. -/
theorem handed_in_order (keyboard : σ) (events : List KeyEvent) (wf : ∀ e ∈ events, e.WellFormed)
    (room : Lib.Along (step env) (fun s e => ¬ Overflows env s e.record) (.start keyboard) events)
    (keeps : Lib.Along (step env) (KeepsOrder env) (.start keyboard) events)
    (key : KeyPos) (hk : key ≠ tickPos) :
    keyEvents key (handedEvents (run env (.start keyboard) events).handed ++
        (run env (.start keyboard) events).waiting) = keyEvents key events ∧
      ((run env (.start keyboard) events).Drained →
        keyEvents key (handedEvents (run env (.start keyboard) events).handed) =
          keyEvents key events) := by
  have start : InOrder (Engine.start keyboard) [] := ⟨fun r hr => (nomatch hr), fun key _ => rfl⟩
  have inOrder := (start.run env wf room keeps).2 key hk
  refine ⟨inOrder, fun drained => ?_⟩
  rw [List.nil_append, Engine.flow_eq, drained.1, undecidedEvents_of_decided drained.2] at inOrder
  simpa using inOrder

end Runs

/-! ## Two tap-hold keys with different terms -/

/-- Left shift when held and B when tapped. -/
def shiftKey : KeyPos := ⟨0, 0⟩
/-- Left control when held and C when tapped. -/
def ctrlKey : KeyPos := ⟨1, 0⟩
/-- The key A. -/
def plainKey : KeyPos := ⟨2, 0⟩

/-- The shift key has a term of a second, the control key one of a tenth. -/
def twoTerms : Env Unit where
  tappingTerm _ r := if r.event.key = shiftKey then 1000 else 100
  quickTapTerm _ r := if r.event.key = shiftKey then 1000 else 100
  permissiveHold _ _ := false
  holdOnOtherKeyPress _ _ := false
  retroTapping _ _ := false
  retroShift := 0
  tapIsLt _ _ := false
  tapIsMt _ _ := true
  tapIsRetro _ _ := false
  retroShiftSwapTimes := id
  layerSwitchGetAction _ key := if key = shiftKey then 0x2205 else if key = ctrlKey then 0x2106 else 0x0004
  processRecordTapHint _ _ := ()
  processRecord _ _ := ()
  clearKeyboard := id
  cancelsTap _ _ := false
  releasesOneshot _ _ := false
  resetsTap _ _ := false

/-- A plain key tapped while the shift key is held. -/
def tapWhileHeld : List KeyEvent :=
  [⟨shiftKey, true, 1⟩, ⟨plainKey, true, 51⟩, ⟨plainKey, false, 91⟩, ⟨tickPos, false, 1101⟩,
    ⟨shiftKey, false, 1201⟩, ⟨tickPos, false, 3201⟩]

theorem handed_in_order_tapWhileHeld :
    keyEvents plainKey (handedEvents (run twoTerms (.start ()) tapWhileHeld).handed) =
      keyEvents plainKey tapWhileHeld :=
  (handed_in_order twoTerms () tapWhileHeld (by decide) (by decide) (by decide) plainKey (by decide)).2
    (by decide)

/-- The control key is found to be held while the buffer is replayed. The replay stops
there with no key undecided, and the next release overtakes the press in the buffer. -/
def replayStops : List KeyEvent :=
  [⟨shiftKey, true, 1⟩, ⟨ctrlKey, true, 11⟩, ⟨plainKey, true, 901⟩, ⟨shiftKey, false, 999⟩,
    ⟨plainKey, false, 999⟩, ⟨tickPos, false, 1001⟩, ⟨ctrlKey, false, 1101⟩, ⟨tickPos, false, 3001⟩]

theorem release_before_press :
    (∀ e ∈ replayStops, e.WellFormed) ∧
      Lib.Along (step twoTerms) (fun s e => ¬ Overflows twoTerms s e.record) (.start ()) replayStops ∧
      (run twoTerms (.start ()) replayStops).Drained ∧
      keyEvents plainKey replayStops = [⟨plainKey, true, 901⟩, ⟨plainKey, false, 999⟩] ∧
      keyEvents plainKey (handedEvents (run twoTerms (.start ()) replayStops).handed) =
        [⟨plainKey, false, 999⟩, ⟨plainKey, true, 901⟩] := by
  refine ⟨by decide, by decide, by decide, by decide, by decide⟩

end QmkFirmware.Tapping
