import QmkFirmware.Report.Mode

/-!
# No phantom keys

The report holds the keys that are registered, as long as the mode does not change under
them. A connection, a change of the transport and the NKRO keys clear the keyboard first;
a pin code entry does not.
-/

namespace QmkFirmware.Report
open Lib
open Bluetooth (EventType)

variable {l : Layout} {bluetoothNkro : Bool} {x : World}

/-- An event of the queue changes the mode only when no key is held, or clears the keyboard first. -/
def HandleOk (l : Layout) (bluetoothNkro : Bool) (x : World) (event : EventType) : Prop :=
  event = .connected ∨ x.held = ∅ ∨ (x.state.handle l bluetoothNkro event).nkroMode = x.state.nkroMode

/-- A step does not change the mode of a report that holds keys before it clears them. -/
def StepOk (l : Layout) (bluetoothNkro : Bool) (x : World) : Event → Prop
  | .setTransport newTransport =>
    x.held = ∅ ∨ { x.state with transport := newTransport }.nkroMode = x.state.nkroMode
  | .eventQueueTask => Along (World.handle l bluetoothNkro) (HandleOk l bluetoothNkro) x.dequeued x.state.queue
  | .magic key =>
    x.held = ∅ ∨ { x.state with nkro := x.state.eeprom }.nkroMode = x.state.nkroMode ∨
      (x.state.processMagic l key).nkroMode = x.state.nkroMode
  | .setProtocol report => x.held = ∅ ∨ { x.state with keyboardProtocol := report }.nkroMode = x.state.nkroMode
  | _ => True

instance (x : World) (event : EventType) : Decidable (HandleOk l bluetoothNkro x event) :=
  inferInstanceAs (Decidable (_ ∨ _ ∨ _))

instance (x : World) : (event : Event) → Decidable (StepOk l bluetoothNkro x event)
  | .register _ | .unregister _ | .enqueue _ => inferInstanceAs (Decidable True)
  | .setTransport _ | .setProtocol _ => inferInstanceAs (Decidable (_ ∨ _))
  | .eventQueueTask => inferInstanceAs (Decidable (Along _ _ _ _))
  | .magic _ => inferInstanceAs (Decidable (_ ∨ _ ∨ _))

/-- The report holds the keys that are held, which are basic ones. -/
structure Good (l : Layout) (x : World) : Prop where
  holds : Holds l x.state.nkroMode x.state.report x.held
  basic : ∀ code ∈ x.held, isBasicKeycode code = true

/-- A step that leaves nothing held and the report blank -/
theorem Good.of_blank {x : World} (blank : Blank l x.state.report) (none : x.held = ∅) : Good l x := by
  constructor
  · rw [none]
    exact holds_empty_iff.mpr blank
  · rw [none]
    exact fun _ mem => absurd mem (Finset.notMem_empty _)

theorem Good.blank (h : Good l x) (none : x.held = ∅) : Blank l x.state.report := by
  have holds := h.holds
  rw [none] at holds
  exact holds_empty_iff.mp holds

/-- The keyboard is cleared in a mode that is that of the report, or with nothing held. -/
theorem Good.cleared (h : Good l x) {nkro : Bool} (ok : x.held = ∅ ∨ nkro = x.state.nkroMode) :
    Blank l (clearKeysFromReport l nkro x.state.report) := by
  obtain none | rfl := ok
  · exact (h.blank none).clear
  · exact h.holds.clear

/-- Only the mode changes. -/
theorem Good.switched (h : Good l x) {y : World} (report : y.state.report = x.state.report) (held : y.held = x.held)
    (ok : x.held = ∅ ∨ y.state.nkroMode = x.state.nkroMode) : Good l y := by
  obtain none | same := ok
  · exact .of_blank (report ▸ h.blank none) (held.trans none)
  · refine ⟨?_, held ▸ h.basic⟩
    rw [report, held, same]
    exact h.holds

theorem Good.handle (h : Good l x) {event : EventType} (ok : HandleOk l bluetoothNkro x event) :
    Good l (x.handle l bluetoothNkro event) := by
  by_cases connected : event = .connected
  · subst connected
    exact .of_blank h.holds.clear rfl
  · have held : (x.handle l bluetoothNkro event).held = x.held := if_neg connected
    refine h.switched ?_ held (ok.resolve_left connected)
    cases event <;> first | exact absurd rfl connected | rfl

theorem Good.setTransport (h : Good l x) {newTransport : Transport} (ok : StepOk l bluetoothNkro x (.setTransport newTransport)) :
    Good l (x.step l bluetoothNkro (.setTransport newTransport)) := by
  by_cases same : x.state.transport = newTransport
  · have still : x.step l bluetoothNkro (.setTransport newTransport) = x := by
      change World.mk (x.state.setTransport l bluetoothNkro newTransport) (if x.state.transport = newTransport then _ else _) _ = x
      unfold State.setTransport
      rw [if_pos same, if_pos same]
    rw [still]
    exact h
  · have report : (x.step l bluetoothNkro (.setTransport newTransport)).state.report =
        clearKeysFromReport l { x.state with transport := newTransport }.nkroMode x.state.report := by
      change (x.state.setTransport l bluetoothNkro newTransport).report = _
      unfold State.setTransport
      rw [if_neg same]
      cases newTransport <;> rfl
    apply Good.of_blank
    · rw [report]
      exact h.cleared ok
    · exact if_neg same

theorem Good.magic (h : Good l x) {key : Magic} (ok : StepOk l bluetoothNkro x (.magic key)) :
    Good l (x.step l bluetoothNkro (.magic key)) := by
  refine .of_blank ?_ rfl
  change Blank l (x.state.processMagic l key).report
  have first : x.held = ∅ ∨ { x.state with nkro := x.state.eeprom }.nkroMode = x.state.nkroMode →
      Blank l (clearKeysFromReport l { x.state with nkro := x.state.eeprom }.nkroMode x.state.report) := h.cleared
  by_cases other : key = .other
  · subst other
    obtain none | same | same := ok
    · exact first (.inl none)
    · exact first (.inr same)
    · exact first (.inr same)
  · have report : (x.state.processMagic l key).report = clearKeysFromReport l (x.state.processMagic l key).nkroMode
        (clearKeysFromReport l { x.state with nkro := x.state.eeprom }.nkroMode x.state.report) := by
      unfold State.processMagic
      dsimp only
      rw [if_neg other]
      rfl
    rw [report]
    obtain none | same | same := ok
    · exact (first (.inl none)).clear
    · exact (first (.inr same)).clear
    · rw [same]
      exact h.holds.clear_clear

theorem Good.step (h : Good l x) {event : Event} (ok : StepOk l bluetoothNkro x event) :
    Good l (x.step l bluetoothNkro event) := by
  cases event with
  | register code => exact ⟨h.holds.register, fun _ mem => registered_basic h.basic mem⟩
  | unregister code =>
    refine ⟨h.holds.unregister, fun other mem => h.basic other ?_⟩
    change other ∈ unregistered code x.held at mem
    unfold unregistered at mem
    split at mem
    · exact Finset.mem_of_mem_erase mem
    · exact mem
  | setTransport newTransport => exact h.setTransport ok
  | enqueue event => exact h.switched rfl rfl (.inr rfl)
  | eventQueueTask =>
    have dequeued : Good l x.dequeued := h.switched rfl rfl (.inr rfl)
    exact Along.invariant (Good l) (fun _ _ h ok => h.handle ok) dequeued ok
  | magic key => exact h.magic ok
  | setProtocol report => exact h.switched rfl rfl ok

theorem good_initial {eeprom : Bool} : Good l (World.initial bluetoothNkro eeprom) := .of_blank (fun _ _ => rfl) rfl

/-- **No phantom keys.** In a run in which the mode does not change under keys that are held, the report holds in every
state exactly the keys that were taken and not released since the last clear. -/
theorem report_holds_registered {eeprom : Bool} {events : List Event}
    (ok : Along (World.step l bluetoothNkro) (StepOk l bluetoothNkro) (World.initial bluetoothNkro eeprom) events) :
    let x := events.foldl (World.step l bluetoothNkro) (World.initial bluetoothNkro eeprom)
    ∀ code, isKeyPressed l x.state.nkroMode x.state.report code = decide (code ∈ x.held) := by
  intro x code
  have good : Good l x := ok.invariant (Good l) (fun _ _ h ok => h.step ok) good_initial
  by_cases known : code ≠ 0 ∧ code.toNat / 8 < l.bits
  · exact good.holds.isKeyPressed known.1 known.2
  · have out : code ∉ x.held := fun mem => known (basic_bounds (good.basic code mem))
    rw [decide_eq_false out]
    unfold isKeyPressed
    split_ifs with zero nkro inside
    · rfl
    · exact absurd ⟨zero, inside⟩ known
    · rfl
    · apply decide_eq_false
      rintro ⟨i, eq⟩
      have mem : code ∈ x.held := by
        have holds := good.holds
        unfold Holds at holds
        rw [if_neg nkro] at holds
        exact (holds.mem code).mpr ⟨zero, i, eq⟩
      exact out mem

/-- `SHARED_EPSIZE - 2` bytes, and no report ID in the 6KRO report -/
def chibios : Layout := ⟨30, 0, Nat.le_of_ble_eq_true rfl, Nat.le_of_ble_eq_true rfl, Nat.le_of_ble_eq_true rfl⟩

/-- Keys in both modes, a change of the transport and a connection -/
theorem report_holds_registered_run :
    let x := [.register 4, .register 5, .magic .toggleNkro, .register 6, .unregister 6, .setTransport .bluetooth,
      .enqueue .connected, .register 7, .eventQueueTask, .register 8].foldl (World.step chibios true) (World.initial true true)
    ∀ code, isKeyPressed chibios x.state.nkroMode x.state.report code = decide (code ∈ x.held) :=
  report_holds_registered (by decide)

/-- The seventh key in the 6KRO mode is not in the report, and a pin code entry makes of the key A in the NKRO mode
the key M in the 6KRO mode. -/
theorem seventh_key_missing :
    (let x := [.register 4, .register 5, .register 6, .register 7, .register 8, .register 9, .register 10].foldl
      (World.step chibios true) (World.initial true false)
    isKeyPressed chibios x.state.nkroMode x.state.report 10 = false) ∧
    (let x := [.register 4, .enqueue .pincodeEntry, .eventQueueTask].foldl (World.step chibios true)
      (World.initial true true)
    isKeyPressed chibios x.state.nkroMode x.state.report 4 = false ∧
      isKeyPressed chibios x.state.nkroMode x.state.report 16 = true) := by
  refine ⟨?_, rfl, rfl⟩
  have good := Along.invariant (Good chibios) (fun _ _ h ok => h.step ok) good_initial
    (show Along (World.step chibios true) (StepOk chibios true) (World.initial true false)
      [.register 4, .register 5, .register 6, .register 7, .register 8, .register 9, .register 10] by decide)
  have missing := @Holds.isKeyPressed chibios _ _ 10 _ good.holds (by decide) (by decide)
  exact missing.trans (by decide)

end QmkFirmware.Report
