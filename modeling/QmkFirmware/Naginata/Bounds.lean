import QmkFirmware.Lib.Audited
import QmkFirmware.Naginata.Typing
import QmkFirmware.Via.SendString

/-!
# Indices of the input method

The indices that an event makes into the buffer, into `ng_key`, into the string that is
typed and into the tables of `send_char`. They are inside as long as no press finds the
buffer full and no chord is typed whose string has no null in its array or is not ASCII.
-/

namespace QmkFirmware.Naginata
open Lib Audited

/-- The arrays, `kana` being the one of the entry that is typed -/
inductive Table where
  | ninputs | ngKey | kana | keycodeLut | shiftLut | altgrLut | deadLut
  deriving DecidableEq, Repr

/-- The `kana` of a `naginata_keymap` -/
def kanaSize : Nat := 5

def Table.size : Table → Nat
  | .ninputs => ngBuffer
  | .ngKey => 50
  | .kana => kanaSize
  | .keycodeLut => 128
  | .shiftLut => 16
  | .altgrLut => 16
  | .deadLut => 16

structure Access where
  table : Table
  index : Nat
  deriving DecidableEq, Repr

def Access.Inside (a : Access) : Prop := a.index < a.table.size

instance : DecidablePred Access.Inside := fun a => inferInstanceAs (Decidable (a.index < a.table.size))

/-- The bytes of a character of a string literal: UTF-8, or the `SS_TAP` that the character stands for. -/
def charBytes : Char → List UInt8
  | '←' => [Via.ssQmkPrefix, Via.ssTapCode, 0x50]
  | '→' => [Via.ssQmkPrefix, Via.ssTapCode, 0x4F]
  | '⏎' => [Via.ssQmkPrefix, Via.ssTapCode, 0x28]
  | '⌫' => [Via.ssQmkPrefix, Via.ssTapCode, 0x2A]
  | c => String.utf8EncodeChar c

/-- The array that a literal initialises: five bytes leave no null. -/
def kanaBytes (kana : String) : List UInt8 :=
  let bytes := kana.toList.flatMap charBytes
  bytes ++ List.replicate (kanaSize - bytes.length) 0

example : kanaBytes "()←" = [40, 41, 1, 1, 0x50] := by decide

/-- No literal is longer than its array. -/
theorem length_kanaBytes : ∀ entry ∈ ngmap ++ ngmap2, (kanaBytes entry.kana).length = kanaSize := by decide +kernel

namespace Audit

/-- `send_char` -/
def sendChar (asciiCode : UInt8) : Audited Access Unit := do
  note ⟨.keycodeLut, asciiCode.toNat⟩ ()
  note ⟨.shiftLut, asciiCode.toNat / 8⟩ ()
  note ⟨.altgrLut, asciiCode.toNat / 8⟩ ()
  note ⟨.deadLut, asciiCode.toNat / 8⟩ ()

/-- The calls of `send_string`, of which only `send_char` has tables -/
def sendCalls : List Via.Sent → Audited Access Unit
  | [] => pure ()
  | .char asciiCode :: sent => do
    sendChar asciiCode
    sendCalls sent
  | _ :: sent => sendCalls sent

/-- `send_string`; without a null it reads on behind the array. -/
def sendString (entry : Entry) : Audited Access Unit :=
  match Via.sendStringWithDelay (kanaBytes entry.kana) 0 with
  | some sent => sendCalls sent
  | none => note ⟨.kana, kanaSize⟩ ()

/-- `naginata_clear` -/
def naginataClear (s : State) : Audited Access State :=
  loop (fun i s => note ⟨.ninputs, i⟩ s) ngBuffer (Naginata.naginataClear s)

/-- One turn of the loop of `naginata_type` over the buffer -/
def typeInput (j : Nat) (s : State) : Audited Access State := do
  let input ← note ⟨.ninputs, j⟩ s.ninputs[j]?
  match input with
  | none => pure s
  | some key =>
    note ⟨.ngKey, key.ctorIdx⟩ ()
    match typedFor s key with
    | none => pure s
    | some entry =>
      sendString entry
      pure (s.send [.sendString entry])

/-- `naginata_type` -/
def naginataType (s : State) : Audited Access State :=
  match s.table.find? fun entry => s.keycomb == entry.key with
  | some entry => do
    sendString entry
    naginataClear (s.send [.sendString entry])
  | none => do
    let s ← loop typeInput s.ngChrcount s
    naginataClear s

/-- `process_naginata`, for a key of the input method -/
def processNaginata (key : NgKey) (pressed : Bool) (s : State) : Audited Access State :=
  if pressed then do
    note ⟨.ninputs, s.ngChrcount⟩ ()
    note ⟨.ngKey, key.ctorIdx⟩ ()
    let s := gather key s
    if s.isShingeta ∧ 1 < s.ngChrcount then naginataType s else pure s
  else do
    let s ← if 0 < s.ngChrcount then naginataType s else pure s
    note ⟨.ngKey, key.ctorIdx⟩ { s with keycomb := s.keycomb &&& ~~~(ngKey key) }

/-- The event with its accesses: only `naginata_on`, `naginata_off` and `process_naginata` have any. -/
def record (s : State) (e : Event) : Audited Access State :=
  match e.keycode with
  | .ng key => if s.isNaginata then processNaginata key e.pressed s else pure s
  | .lng1 => if e.pressed then do
      let s ← naginataClear s
      pure (naginataOn s)
    else pure s
  | .lng2 => if e.pressed then do
      let s ← naginataClear s
      pure (naginataOff s)
    else pure s
  | _ => pure (Naginata.record s e)

end Audit

/-- The chords whose string has five bytes or is `¥`, in the table in use -/
def spilling (isShingeta : Bool) : List (BitVec 64) :=
  if isShingeta then
    [keys [.w, .j], keys [.q, .j], keys [.n2, .j], keys [.f, .g], keys [.h, .j], keys [.u, .yen]]
  else [keys [.v, .h, .l], keys [.f, .h, .l]]

/-- The condition on an event: a press finds a slot in the buffer, and what calls `naginata_type` has none of these chords
pressed. -/
def BoundsOk (s : State) (e : Event) : Prop :=
  match e.keycode, s.isNaginata with
  | .ng key, true =>
    if e.pressed then
      s.ngChrcount < ngBuffer ∧
        (s.isShingeta ∧ 0 < s.ngChrcount → s.keycomb ||| ngKey key ∉ spilling s.isShingeta)
    else 0 < s.ngChrcount → s.keycomb ∉ spilling s.isShingeta
  | _, _ => True

/-- The key of the event, where it has one of them -/
def Event.ngKey? (e : Event) : Option NgKey :=
  match e.keycode with
  | .ng key => some key
  | _ => none

theorem boundsOk_iff (s : State) (e : Event) :
    (s.isNaginata = true → ∀ key ∈ e.ngKey?,
      if e.pressed then
        s.ngChrcount < ngBuffer ∧
          (s.isShingeta ∧ 0 < s.ngChrcount → s.keycomb ||| ngKey key ∉ spilling s.isShingeta)
      else 0 < s.ngChrcount → s.keycomb ∉ spilling s.isShingeta) ↔ BoundsOk s e := by
  unfold BoundsOk Event.ngKey?
  cases e.keycode <;> cases s.isNaginata <;> simp

instance (s : State) (e : Event) : Decidable (BoundsOk s e) := decidable_of_iff _ (boundsOk_iff s e)

/-! ## What the audited functions compute -/

variable {s : State} {key : NgKey} {e : Event}

theorem send_send (s : State) (out more : List Output) : (s.send out).send more = s.send (out ++ more) := by
  simp [State.send]

@[simp] theorem typedFor_send (s : State) (out : List Output) : typedFor (s.send out) = typedFor s := rfl

@[simp] theorem value_clear (s : State) : (Audit.naginataClear s).value = naginataClear s := rfl

theorem value_typeInput (j : Nat) (s : State) :
    (Audit.typeInput j s).value = s.send ((s.ninputs[j]?.toList.filterMap (typedFor s)).map .sendString) := by
  unfold Audit.typeInput
  rw [value_bind, value_note]
  cases s.ninputs[j]? with
  | none => simp [State.send]
  | some key =>
    cases typed : typedFor s key with
    | none => simp [State.send, typed]
    | some entry => simp [typed]

theorem value_typeInputs (n : Nat) (s : State) : (loop Audit.typeInput n s).value =
    s.send (((s.ninputs.take n).filterMap (typedFor s)).map .sendString) := by
  induction n with
  | zero => simp [State.send]
  | succ n ih =>
    rw [value_loop_succ, ih, value_typeInput, typedFor_send, send_send, List.take_add_one, List.filterMap_append,
      List.map_append]
    rfl

theorem value_naginataType (s : State) : (Audit.naginataType s).value = naginataType s := by
  unfold Audit.naginataType naginataType
  cases s.table.find? fun entry => s.keycomb == entry.key with
  | some entry => rfl
  | none =>
    dsimp only
    rw [value_bind, value_clear, value_typeInputs]
    unfold State.ngChrcount
    rw [List.take_length]

theorem value_processNaginata (key : NgKey) (pressed : Bool) (s : State) :
    (Audit.processNaginata key pressed s).value = (processNaginata (.ng key) pressed s).2 := by
  unfold Audit.processNaginata processNaginata
  cases pressed
  · simp only [Bool.false_eq_true, if_false]
    split
    · rw [value_bind, value_naginataType]
      rfl
    · rfl
  · simp only [if_true, value_bind]
    split
    · exact value_naginataType _
    · rfl

/-- The audited event is the event. -/
theorem value_record (s : State) (e : Event) : (Audit.record s e).value = record s e := by
  unfold Audit.record
  split
  next key keycode =>
    split
    next on => rw [value_processNaginata, record_ng keycode on]
    next off => simp [record, processRecordUser, keycode, off]
  next keycode =>
    unfold record processRecordUser
    rw [keycode]
    dsimp only
    split <;> rfl
  next keycode =>
    unfold record processRecordUser
    rw [keycode]
    dsimp only
    split <;> rfl
  next => rfl

/-! ## The accesses -/

theorem clear_safe (s : State) : (Audit.naginataClear s).Safe Access.Inside := by
  unfold Audit.naginataClear
  rw [safe_loop]
  intro i hi
  rw [safe_note]
  exact hi

theorem ngKey_inside (key : NgKey) : Access.Inside ⟨.ngKey, key.ctorIdx⟩ := by
  cases key <;> decide

theorem ngmap_safe : ∀ entry ∈ ngmap, (Audit.sendString entry).Safe Access.Inside ↔ entry.key ∉ spilling true := by
  decide +kernel

theorem ngmap2_safe : ∀ entry ∈ ngmap2, (Audit.sendString entry).Safe Access.Inside ↔ entry.key ∉ spilling false := by
  decide +kernel

theorem sendString_safe {entry : Entry} (mem : entry ∈ s.table) :
    (Audit.sendString entry).Safe Access.Inside ↔ entry.key ∉ spilling s.isShingeta := by
  unfold State.table at mem
  split at mem
  next on => rw [on, ngmap_safe entry mem]
  next off => rw [Bool.eq_false_of_not_eq_true off, ngmap2_safe entry mem]

theorem skey_not_spilling (s : State) (key : NgKey) (isShingeta : Bool) :
    (skey s key).setWidth 64 ∉ spilling isShingeta := by
  have shift : (ngKey .lsft).setWidth 32 = 0#32 := by decide
  have single : skey s key = (ngKey key).setWidth 32 := by
    unfold skey
    split <;> simp only [shift, BitVec.or_zero]
  rw [single]
  revert isShingeta
  cases key <;> decide

/-- A key that is typed by itself has a string that fits. -/
theorem typedFor_safe {entry : Entry} (typed : typedFor s key = some entry) :
    (Audit.sendString entry).Safe Access.Inside := by
  have same : (skey s key).setWidth 64 = entry.key := by simpa using List.find?_some typed
  rw [sendString_safe (List.mem_of_find?_eq_some typed), ← same]
  exact skey_not_spilling s key _

theorem typeInput_safe {j : Nat} (inside : j < ngBuffer) : (Audit.typeInput j s).Safe Access.Inside := by
  unfold Audit.typeInput
  rw [safe_bind, safe_note, value_note]
  refine ⟨inside, ?_⟩
  cases s.ninputs[j]? with
  | none => exact safe_pure _
  | some key =>
    simp only [safe_bind, safe_note]
    refine ⟨ngKey_inside key, ?_⟩
    cases typed : typedFor s key with
    | none => exact safe_pure _
    | some entry =>
      rw [safe_bind]
      exact ⟨typedFor_safe typed, safe_pure _⟩

theorem ngmap_spilling : (spilling true).all fun set => ngmap.any fun entry => entry.key == set := by decide +kernel

theorem ngmap2_spilling : (spilling false).all fun set => ngmap2.any fun entry => entry.key == set := by
  decide

theorem spilling_found {set : BitVec 64} (h : set ∈ spilling s.isShingeta) : ∃ entry ∈ s.table, entry.key = set := by
  have found : s.table.any fun entry => entry.key == set := by
    unfold State.table
    split
    next on =>
      rw [on] at h
      exact List.all_eq_true.1 ngmap_spilling set h
    next off =>
      rw [Bool.eq_false_of_not_eq_true off] at h
      exact List.all_eq_true.1 ngmap2_spilling set h
  obtain ⟨entry, mem, same⟩ := List.any_eq_true.1 found
  exact ⟨entry, mem, by simpa using same⟩

theorem naginataType_safe (fits : s.ngChrcount ≤ ngBuffer) :
    (Audit.naginataType s).Safe Access.Inside ↔ s.keycomb ∉ spilling s.isShingeta := by
  unfold Audit.naginataType
  split
  next entry chord =>
    have same : s.keycomb = entry.key := by simpa using List.find?_some chord
    rw [safe_bind, sendString_safe (List.mem_of_find?_eq_some chord), same]
    exact and_iff_left (clear_safe _)
  next none =>
    rw [safe_bind, safe_loop]
    refine iff_of_true ⟨fun i hi => typeInput_safe (hi.trans_le fits), clear_safe _⟩ fun spills => ?_
    obtain ⟨entry, mem, same⟩ := spilling_found spills
    have missed := List.find?_eq_none.1 none entry mem
    simp [same] at missed

/-! ## One event -/

theorem gather_ngChrcount (room : s.ngChrcount < ngBuffer) (key : NgKey) :
    (gather key s).ngChrcount = s.ngChrcount + 1 := by
  unfold State.ngChrcount
  rw [gather_ninputs room, List.length_append, List.length_singleton]

/-- The press of a key, past the slot that it is written to -/
theorem press_safe (room : s.ngChrcount < ngBuffer) (key : NgKey) :
    (Audit.processNaginata key true s).Safe Access.Inside ↔
      (s.isShingeta ∧ 0 < s.ngChrcount → s.keycomb ||| ngKey key ∉ spilling s.isShingeta) := by
  have count := gather_ngChrcount room key
  have fits : (gather key s).ngChrcount ≤ ngBuffer := by omega
  unfold Audit.processNaginata
  simp only [if_true, safe_bind, safe_note, ngKey_inside, true_and]
  rw [and_iff_right (show Access.Inside ⟨.ninputs, s.ngChrcount⟩ from room)]
  split
  next typing =>
    rw [naginataType_safe fits, gather_keycomb, gather_isShingeta]
    refine ⟨fun h _ => h, fun h => h ⟨by simpa using typing.1, by omega⟩⟩
  next waiting =>
    refine iff_of_true (safe_pure _) fun typing => absurd ⟨?_, ?_⟩ waiting
    · rw [gather_isShingeta]
      exact typing.1
    · omega

theorem release_safe (fits : s.ngChrcount ≤ ngBuffer) (key : NgKey) :
    (Audit.processNaginata key false s).Safe Access.Inside ↔
      (0 < s.ngChrcount → s.keycomb ∉ spilling s.isShingeta) := by
  unfold Audit.processNaginata
  simp only [Bool.false_eq_true, if_false]
  split
  next some =>
    rw [safe_bind, safe_note, and_iff_left (ngKey_inside key), naginataType_safe fits]
    exact ⟨fun h _ => h, fun h => h some⟩
  next none =>
    rw [safe_bind, safe_note]
    exact iff_of_true ⟨safe_pure s, ngKey_inside key⟩ fun some => absurd some none

/-- An event that clears the buffer, or does nothing -/
theorem clearing_safe (pressed : Bool) (next : State → State) :
    (if pressed then do
      let s ← Audit.naginataClear s
      pure (next s)
    else pure s : Audited Access State).Safe Access.Inside := by
  split
  · rw [safe_bind]
    exact ⟨clear_safe s, safe_pure _⟩
  · exact safe_pure s

/-- **What one event does**: its accesses are inside exactly under the condition. -/
theorem record_safe (fits : s.ngChrcount ≤ ngBuffer) (e : Event) :
    (Audit.record s e).Safe Access.Inside ↔ BoundsOk s e := by
  obtain ⟨position, keycode, pressed⟩ := e
  unfold Audit.record BoundsOk
  cases keycode with
  | ng key =>
    cases on : s.isNaginata with
    | false => exact iff_of_true (safe_pure s) trivial
    | true =>
      cases pressed with
      | false => exact release_safe fits key
      | true =>
        simp only [if_true]
        by_cases room : s.ngChrcount < ngBuffer
        · rw [press_safe room, and_iff_right room]
        · refine iff_of_false (fun safe => room ?_) fun h => room h.1
          unfold Audit.processNaginata at safe
          rw [if_pos rfl, safe_bind, safe_note] at safe
          exact safe.1
  | lng1 => exact iff_of_true (clearing_safe pressed naginataOn) trivial
  | lng2 => exact iff_of_true (clearing_safe pressed naginataOff) trivial
  | _ => exact iff_of_true (safe_pure _) trivial

/-- The counter is at most the size of the buffer. -/
def Counted (s : State) : Prop := s.overrun = false ∧ s.ngChrcount ≤ ngBuffer

instance (s : State) : Decidable (Counted s) := inferInstanceAs (Decidable (_ ∧ _))

theorem Counted.clear (h : Counted s) : Counted (naginataClear s) := ⟨h.1, Nat.zero_le _⟩

theorem Counted.naginataType (h : Counted s) : Counted (naginataType s) := by
  unfold Naginata.naginataType
  split <;> exact Counted.clear (s := s.send _) h

theorem Counted.gather (h : Counted s) (room : s.ngChrcount < ngBuffer) (key : NgKey) : Counted (gather key s) := by
  constructor
  · unfold Naginata.gather
    rw [if_pos room]
    exact h.1
  · rw [gather_ngChrcount room]
    exact room

theorem Counted.processNaginata (h : Counted s) (key : NgKey) (pressed : Bool)
    (room : pressed = true → s.ngChrcount < ngBuffer) : Counted (processNaginata (.ng key) pressed s).2 := by
  unfold Naginata.processNaginata
  cases pressed with
  | false =>
    simp only [Bool.false_eq_true, if_false]
    split
    · exact h.naginataType
    · exact h
  | true =>
    simp only [if_true]
    have gathered := h.gather (room rfl) key
    split
    · exact gathered.naginataType
    · exact gathered

theorem Counted.naginataMode (h : Counted s) (keycode : Keycode) (pressed : Bool) :
    Counted (naginataMode keycode pressed s) := by
  have overrun : (Naginata.naginataMode keycode pressed s).overrun = s.overrun := by
    unfold Naginata.naginataMode
    split
    · rfl
    · split
      · split
        · rfl
        · dsimp only
          split <;> rfl
      · rfl
  have same := naginataMode_same keycode pressed s
  unfold Counted State.ngChrcount
  rw [overrun, same.ninputs]
  exact h

/-- The counter stays within the buffer. -/
theorem Counted.record (h : Counted s) {e : Event} (ok : BoundsOk s e) : Counted (record s e) := by
  obtain ⟨position, keycode, pressed⟩ := e
  unfold Naginata.record
  cases keycode with
  | ng key =>
    unfold processRecordUser
    cases on : s.isNaginata with
    | false => simpa [on] using h
    | true =>
      simp only [if_true]
      refine (h.naginataMode (.ng key) pressed).processNaginata key pressed fun press => ?_
      unfold BoundsOk at ok
      simp only [on, press, if_true] at ok
      unfold State.ngChrcount at ok ⊢
      rw [(naginataMode_same (.ng key) pressed s).ninputs]
      exact ok.1
  | lng1 =>
    cases pressed with
    | false => exact h
    | true => exact Counted.clear (s := { s with isNaginata := true, keycomb := 0 }) h
  | lng2 =>
    cases pressed with
    | false => exact h
    | true => exact Counted.clear (s := { s with isNaginata := false, keycomb := 0 }) h
  | modifier mod =>
    unfold processRecordUser
    dsimp only
    split
    · exact h.naginataMode (.modifier mod) pressed
    · exact h
  | other =>
    unfold processRecordUser
    dsimp only
    split
    · exact h.naginataMode .other pressed
    · exact h
  | adjust | lower | raise => exact h
  | swsgt | qwerty | eucalyn | workman => cases pressed <;> exact h

/-! ## Runs -/

/-- What an event may do: it indexes nothing outside its array, and leaves the counter within the buffer. -/
def InBounds (s : State) (e : Event) : Prop :=
  (Audit.record s e).Safe Access.Inside ∧ Counted (Audit.record s e).value

instance (s : State) (e : Event) : Decidable (InBounds s e) := inferInstanceAs (Decidable (_ ∧ _))

theorem inBounds_iff (h : Counted s) (e : Event) : InBounds s e ↔ BoundsOk s e := by
  unfold InBounds
  rw [value_record, record_safe h.2 e]
  exact and_iff_left_of_imp h.record

/-- **The indices of the input method**: over any events, they are inside their arrays and the counter within the buffer as
long as each event meets the condition, and no longer. -/
theorem accesses_inside (events : List Event) :
    Along record InBounds boot events ↔ Along record BoundsOk boot events := by
  refine Along.congr Counted (fun s e h => inBounds_iff h e) (fun s e _ ok => ?_) (by decide)
  have counted := ok.2
  rwa [value_record] at counted

def switchOn : List Event := [⟨(5, 10), .lng1, true⟩, ⟨(5, 10), .lng1, false⟩]

/-- The other table, and six keys -/
def sixKeys : List Event :=
  switchOn ++ [⟨(0, 15), .swsgt, true⟩, ⟨(0, 15), .swsgt, false⟩, ⟨(3, 1), .ng .a, true⟩, ⟨(3, 2), .ng .s, true⟩,
    ⟨(3, 3), .ng .d, true⟩, ⟨(3, 4), .ng .f, true⟩, ⟨(3, 5), .ng .g, true⟩, ⟨(3, 6), .ng .h, true⟩]

/-- The chord for `¥` -/
def yenChord : List Event := switchOn ++ [⟨(2, 7), .ng .u, true⟩, ⟨(1, 13), .ng .yen, true⟩]

/-- The chord for `texyu` -/
def longChord : List Event := switchOn ++ [⟨(2, 2), .ng .w, true⟩, ⟨(3, 7), .ng .j, true⟩]

theorem accesses_outside :
    ¬ Along record InBounds boot sixKeys ∧ ¬ Along record InBounds boot yenChord ∧
      ¬ Along record InBounds boot longChord := by
  refine ⟨?_, ?_, ?_⟩ <;> decide

end QmkFirmware.Naginata
