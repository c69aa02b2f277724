import QmkFirmware.Lib.Ring
import QmkFirmware.Lib.Run
import QmkFirmware.Bluetooth.Receive

/-!
# The Bluetooth driver and its report buffer

`bluetooth.c` and `report_buffer.c` as a state machine over the calls that reach
them. `bluetooth_task` is the effects of the receive path, then the events of the
event queue, then `report_buffer_task`. The timer is read once in a call.
-/

namespace QmkFirmware.Bluetooth
open Lib

/-- `bluetooth_state_t` -/
inductive BluetoothState where
  | reset | initialized | disconnected | connected | paring | reconnecting | suspend
  deriving DecidableEq, Repr

/-- `report_buffer_t` by its type; `K` is the contents of `report_keyboard_t`. -/
inductive Report (K : Type) where
  | kb (keyboard : K)
  | nkro (keyboard : K)
  | consumer (usage : UInt16)
  deriving DecidableEq, Repr

def Report.isKeyboard {K : Type} : Report K → Bool
  | kb _ => true
  | nkro _ => true
  | consumer _ => false

/-- A report, with the number of its submission and whether it was submitted while the
pin code is entered; the code has neither. -/
structure Submission (K : Type) where
  serial : Nat
  pin : Bool
  report : Report K
  deriving DecidableEq, Repr

/-- A report handed to the transport, and the state of the driver then. -/
structure Handed (K : Type) where
  submission : Submission K
  btState : BluetoothState
  pincodeEntry : Bool
  deriving DecidableEq, Repr

/-- `REPORT_BUFFER_QUEUE_SIZE`, `RETPORT_RETRY_COUNT`, `NKRO_ENABLE` and
`BLUETOOTH_NKRO_ENABLE` -/
structure DriverConfig where
  queueSize : Nat
  queueSize_pos : 0 < queueSize
  reportRetryCount : Nat
  nkroEnable : Bool
  bluetoothNkroEnable : Bool

/-- The statics of both files. The last three fields are not in the code: what was
submitted, what was handed over, and whether a keyboard report was handed over directly
since `kb_rpt` was taken from the queue. -/
structure Driver (K : Type) (queueSize : Nat) where
  btState : BluetoothState
  pincodeEntry : Bool
  reportProtocol : Bool
  keymapNkro : Bool
  nkroBluetooth : Bool
  queue : Ring queueSize (Submission K)
  kbRpt : Option (Submission K)
  retry : Nat
  reportInterval : Nat
  reportTimerBuffer : BitVec 32
  retryTimeBuffer : BitVec 32
  submitted : List (Submission K)
  handed : List (Handed K)
  stale : Bool

/-- What reaches the driver. `criticalLow` is `battery_is_critical_low()`. -/
inductive Input (K : Type) where
  | sendKeyboard (now : BitVec 32) (report : K) (criticalLow : Bool)
  | sendConsumer (now : BitVec 32) (usage : UInt16) (criticalLow : Bool)
  | task (now : BitVec 32)
  | effect (effect : Effect)
  | event (now : BitVec 32) (event : Event)
  | pairing (criticalLow : Bool)
  | connect (now : BitVec 32) (criticalLow : Bool)
  | nkro (keymap bluetooth : Bool)
  | wakeUp (now : BitVec 32)

namespace Driver

variable {K : Type} (c : DriverConfig)

/-- `bluetooth_init` -/
def init [Inhabited K] (now : BitVec 32) : Driver K c.queueSize where
  btState := .initialized
  pincodeEntry := false
  reportProtocol := true
  keymapNkro := false
  nkroBluetooth := false
  queue := Ring.empty c.queueSize_pos ⟨0, false, .kb default⟩
  kbRpt := none
  retry := 0
  reportInterval := defaultReportIntervalMs
  reportTimerBuffer := now
  retryTimeBuffer := 0
  submitted := []
  handed := []
  stale := false

variable (s : Driver K c.queueSize)

/-- Pairing with the pin code entry active -/
def pinState : Bool := s.btState = .paring ∧ s.pincodeEntry

/-- `report_buffer_init` -/
def reportBufferInit (now : BitVec 32) : Driver K c.queueSize :=
  { s with queue := s.queue.cleared, retry := 0, reportTimerBuffer := now }

/-- `report_buffer_enqueue`; a report that does not fit is dropped. -/
def reportBufferEnqueue (report : Submission K) : Driver K c.queueSize :=
  match s.queue.enqueue report with
  | none => s
  | some queue => { s with queue }

/-- `report_buffer_next_inverval` -/
def reportBufferNextInterval (now : BitVec 32) : Bool := s.reportInterval < (now - s.reportTimerBuffer).toNat

/-- A function of the transport is called. -/
def handOver (report : Submission K) : Driver K c.queueSize :=
  { s with handed := s.handed ++ [⟨report, s.btState, s.pincodeEntry⟩] }

/-- Whether `report_buffer_task` has a function of the transport for the report. -/
def transmits : Report K → Bool
  | .nkro _ => c.nkroEnable && c.bluetoothNkroEnable
  | _ => true

/-- `if (pending_data)` of `report_buffer_task` -/
def sendPending (now : BitVec 32) : Driver K c.queueSize :=
  match s.kbRpt with
  | none => { s with reportTimerBuffer := now }
  | some kbRpt =>
    if transmits c kbRpt.report then { handOver c s kbRpt with reportTimerBuffer := now }
    else { s with reportTimerBuffer := now }

/-- `report_buffer_task` -/
def reportBufferTask (now : BitVec 32) : Driver K c.queueSize :=
  if s.btState = .connected ∧ (s.queue.isEmpty = false ∨ s.retry ≠ 0) ∧ reportBufferNextInterval c s now then
    if s.retry = 0 then
      match s.queue.dequeue with
      | none => s
      | some (report, queue) =>
        let s := { s with queue, kbRpt := some report, stale := false }
        if 2 < now.toNat then
          sendPending c { s with retry := c.reportRetryCount, retryTimeBuffer := now } now
        else s
    else if 7 < (now - s.retryTimeBuffer).toNat then
      sendPending c { s with retry := s.retry - 1, retryTimeBuffer := now } now
    else s
  else s

/-- `bluetooth_connect` -/
def bluetoothConnect (now : BitVec 32) (criticalLow : Bool) : Driver K c.queueSize :=
  if criticalLow ∨ now = 0 then s else { s with btState := .reconnecting }

/-- Whether `bluetooth_send_keyboard` makes an NKRO report. -/
def usesNkro : Bool := c.nkroEnable && s.reportProtocol && s.keymapNkro

/-- The submission of a report -/
def submission (report : Report K) : Submission K :=
  ⟨s.submitted.length, pinState c s && report.isKeyboard, report⟩

def submit (report : Report K) : Driver K c.queueSize :=
  { s with submitted := s.submitted ++ [submission c s report] }

/-- `bluetooth_send_keyboard`; `t` is `s` with the submission noted. -/
def bluetoothSendKeyboard (now : BitVec 32) (keyboard : K) (criticalLow : Bool) : Driver K c.queueSize :=
  let nkro := usesNkro c s
  let report : Report K := if nkro then .nkro keyboard else .kb keyboard
  let t := submit c s report
  if s.btState = .paring ∧ s.pincodeEntry = false then t
  else if s.btState = .connected ∨ pinState c s then
    if nkro then
      let t := reportBufferEnqueue c t (submission c s report)
      if s.queue.isEmpty ∧ reportBufferNextInterval c s now ∧ s.retry = 0 then
        reportBufferTask c { t with retry := 0 } now
      else t
    else if s.queue.isEmpty ∧ reportBufferNextInterval c s now then
      { handOver c t (submission c s report) with reportTimerBuffer := now, stale := true }
    else reportBufferEnqueue c t (submission c s report)
  else if s.btState ≠ .reset then bluetoothConnect c t now criticalLow
  else t

/-- `bluetooth_send_consumer` -/
def bluetoothSendConsumer (now : BitVec 32) (usage : UInt16) (criticalLow : Bool) : Driver K c.queueSize :=
  let t := submit c s (.consumer usage)
  if s.btState = .connected then
    if s.queue.isEmpty ∧ reportBufferNextInterval c s now then
      { handOver c t (submission c s (.consumer usage)) with reportTimerBuffer := now }
    else reportBufferEnqueue c t (submission c s (.consumer usage))
  else if s.btState ≠ .reset then bluetoothConnect c t now criticalLow
  else t

/-- What the receive path asks for, as far as the report buffer is concerned -/
def applyEffect : Effect → Driver K c.queueSize
  | .setRetry times => { s with retry := times }
  | .setInterval ms => { s with reportInterval := ms }
  | _ => s

/-- An event of `bluetooth_event_queue_task`. The empty reports that `clear_keyboard`
makes in `bluetooth_enter_connected` are inputs of their own. -/
def handleEvent (now : BitVec 32) (event : Event) : Driver K c.queueSize :=
  match event.evtType with
  | .reset => { s with btState := .reset }
  | .connected =>
    { s with
      btState := .connected
      keymapNkro := c.nkroEnable && c.bluetoothNkroEnable && s.nkroBluetooth }
  | .discoverable => { s with btState := .paring }
  | .reconnecting => { s with btState := .reconnecting }
  | .disconnected => reportBufferInit c { s with btState := .disconnected } now
  | .pincodeEntry => { s with keymapNkro := s.keymapNkro && !c.nkroEnable, pincodeEntry := true }
  | .exitPincodeEntry => { s with keymapNkro := s.keymapNkro || c.nkroEnable, pincodeEntry := false }
  | .hidSetProtocol => { s with reportProtocol := false }
  | .conectionInterval => { s with reportInterval := event.param.toNat }
  | .hidIndicator => s
  | .none => s

/-- One input. `nkro` is a change of the keymap's or of the transport's NKRO setting, and
`wakeUp` the end of a low power mode. -/
def step (s : Driver K c.queueSize) : Input K → Driver K c.queueSize
  | .sendKeyboard now report criticalLow => bluetoothSendKeyboard c s now report criticalLow
  | .sendConsumer now usage criticalLow => bluetoothSendConsumer c s now usage criticalLow
  | .task now => reportBufferTask c s now
  | .effect effect => applyEffect c s effect
  | .event now event => handleEvent c s now event
  | .pairing criticalLow => if criticalLow then s else { s with btState := .paring }
  | .connect now criticalLow => bluetoothConnect c s now criticalLow
  | .nkro keymap bluetooth => { s with keymapNkro := keymap, nkroBluetooth := bluetooth }
  | .wakeUp now => reportBufferInit c s now

end Driver

/-! ## What an input does to the reports -/

/-- The reports of a driver, without the rest of its state. -/
structure Pipe (K : Type) where
  submitted : List (Submission K)
  handed : List (Handed K)
  queue : List (Submission K)
  kbRpt : Option (Submission K)
  stale : Bool

namespace Driver

variable {K : Type} (c : DriverConfig) (s : Driver K c.queueSize)

def pipe : Pipe K := ⟨s.submitted, s.handed, s.queue.contents, s.kbRpt, s.stale⟩

/-- The report that an input submits -/
def submits : Input K → Option (Report K)
  | .sendKeyboard _ keyboard _ => some (if usesNkro c s then .nkro keyboard else .kb keyboard)
  | .sendConsumer _ usage _ => some (.consumer usage)
  | _ => none

/-- A report is sent in the connected state, and a keyboard report with the pin code entry too. -/
def sends : Input K → Bool
  | .sendKeyboard _ _ _ => s.btState = .connected ∨ pinState c s
  | _ => s.btState = .connected

/-- A report goes past the queue. -/
def sendsDirectly : Input K → Bool
  | .sendKeyboard now _ _ => !usesNkro c s && s.queue.isEmpty && reportBufferNextInterval c s now
  | .sendConsumer now _ _ => s.queue.isEmpty && reportBufferNextInterval c s now
  | _ => false

/-- `report_buffer_task` sends `kb_rpt` again. -/
def resends : Input K → Bool
  | .task now =>
    s.btState = .connected ∧ s.retry ≠ 0 ∧ reportBufferNextInterval c s now ∧ 7 < (now - s.retryTimeBuffer).toNat
  | _ => false

/-- The report that `report_buffer_task` takes from the queue -/
def takes : Input K → Option (Submission K)
  | .task now =>
    if s.btState = .connected ∧ s.retry = 0 ∧ reportBufferNextInterval c s now then s.queue.contents.head? else none
  | .sendKeyboard now keyboard _ =>
    if usesNkro c s ∧ s.btState = .connected ∧ s.queue.isEmpty ∧ reportBufferNextInterval c s now ∧ s.retry = 0 then
      some (submission c s (.nkro keyboard))
    else none
  | _ => none

/-- The report buffer is emptied. -/
def empties : Input K → Bool
  | .event _ event => event.evtType = .disconnected
  | .wakeUp _ => true
  | _ => false

/-- A report that is taken from the queue is not sent in the first 2 ms. -/
def early : Input K → Bool
  | .sendKeyboard now _ _ => now.toNat ≤ 2
  | .task now => now.toNat ≤ 2
  | _ => false

/-- The entry that sending a report leaves -/
def entry (report : Submission K) : Handed K := ⟨report, s.btState, s.pincodeEntry⟩

/-- What is handed over when a report is taken from the queue. -/
def takenEntry (e : Input K) (report : Submission K) : List (Handed K) :=
  if early e = false ∧ transmits c report.report then [entry c s report] else []

/-- What an input can do. -/
inductive Outcome (e : Input K) : Pipe K → Prop where
  | quiet : Outcome e (pipe c s)
  | emptied (h : empties e = true) : Outcome e { pipe c s with queue := [] }
  | unsent (report : Report K) (h : submits c s e = some report) (state : sends c s e = false) :
    Outcome e { pipe c s with submitted := s.submitted ++ [submission c s report] }
  | refused (report : Report K) (h : submits c s e = some report) (state : sends c s e = true)
    (direct : sendsDirectly c s e = false) (full : s.queue.contents.length + 1 = c.queueSize) :
    Outcome e { pipe c s with submitted := s.submitted ++ [submission c s report] }
  | queued (report : Report K) (h : submits c s e = some report) (state : sends c s e = true)
    (direct : sendsDirectly c s e = false) :
    Outcome e { pipe c s with
      submitted := s.submitted ++ [submission c s report]
      queue := s.queue.contents ++ [submission c s report] }
  | direct (report : Report K) (h : submits c s e = some report) (state : sends c s e = true)
    (direct : sendsDirectly c s e = true) (empty : s.queue.contents = []) :
    Outcome e { pipe c s with
      submitted := s.submitted ++ [submission c s report]
      handed := s.handed ++ [entry c s (submission c s report)]
      stale := report.isKeyboard || s.stale }
  | first (report : Report K) (h : submits c s e = some report) (takes : takes c s e = some (submission c s report))
    (room : s.queue.contents.length + 1 ≠ c.queueSize) (direct : sendsDirectly c s e = false)
    (empty : s.queue.contents = []) :
    Outcome e { pipe c s with
      submitted := s.submitted ++ [submission c s report]
      handed := s.handed ++ takenEntry c s e (submission c s report)
      kbRpt := some (submission c s report)
      stale := false }
  | taken (report : Submission K) (rest : List (Submission K)) (takes : takes c s e = some report)
    (queue : s.queue.contents = report :: rest) :
    Outcome e { pipe c s with
      handed := s.handed ++ takenEntry c s e report
      queue := rest
      kbRpt := some report
      stale := false }
  | resent (report : Submission K) (h : resends c s e = true) (kbRpt : s.kbRpt = some report)
    (sent : transmits c report.report = true) :
    Outcome e { pipe c s with handed := s.handed ++ [entry c s report] }

variable {c s}

theorem sendPending_none (now : BitVec 32) (h : s.kbRpt = none) : pipe c (sendPending c s now) = pipe c s := by
  unfold sendPending
  split
  · rfl
  · rename_i some
    rw [h] at some
    cases some

theorem sendPending_some (report : Submission K) (now : BitVec 32) (h : s.kbRpt = some report) :
    pipe c (sendPending c s now) =
      { pipe c s with handed := s.handed ++ if transmits c report.report then [entry c s report] else [] } := by
  unfold sendPending
  split
  · rename_i none
    rw [h] at none
    cases none
  · rename_i kbRpt some
    rw [h] at some
    cases some
    split_ifs
    · rfl
    · rw [List.append_nil]
      rfl

/-- A report is taken from the queue, and sent unless it is early. -/
theorem reportBufferTask_taken {now : BitVec 32} {report : Submission K} {queue : Ring c.queueSize (Submission K)}
    (state : s.btState = .connected) (interval : reportBufferNextInterval c s now = true) (retry : s.retry = 0)
    (h : s.queue.dequeue = some (report, queue)) :
    pipe c (reportBufferTask c s now) =
      { pipe c s with
        handed := s.handed ++ takenEntry c s (.task now) report
        queue := queue.contents
        kbRpt := some report
        stale := false } := by
  have some : s.queue.isEmpty = false := by
    by_contra empty
    rw [Ring.dequeue_eq_none.2 (Ring.contents_eq_nil.2 (by simpa using empty))] at h
    cases h
  unfold reportBufferTask
  rw [if_pos ⟨state, Or.inl some, interval⟩, if_pos retry, h]
  dsimp only
  split_ifs with late
  · rw [sendPending_some report now rfl]
    simp [pipe, takenEntry, early, late, entry]
  · simp [pipe, takenEntry, early, late]

/-- `report_buffer_task` takes a report from the queue, sends `kb_rpt` again, or does nothing. -/
theorem reportBufferTask_outcome (now : BitVec 32) :
    Outcome c s (.task now) (pipe c (reportBufferTask c s now)) := by
  by_cases run : s.btState = .connected ∧ (s.queue.isEmpty = false ∨ s.retry ≠ 0) ∧ reportBufferNextInterval c s now
  swap
  · rw [reportBufferTask, if_neg run]
    exact .quiet
  by_cases retry : s.retry = 0
  · cases h : s.queue.dequeue with
    | none =>
      rw [reportBufferTask, if_pos run, if_pos retry, h]
      exact .quiet
    | some taken =>
      rw [reportBufferTask_taken run.1 run.2.2 retry h]
      refine .taken taken.1 _ ?_ (Ring.contents_dequeue h)
      rw [takes, if_pos ⟨run.1, retry, run.2.2⟩, Ring.contents_dequeue h]
      rfl
  · unfold reportBufferTask
    rw [if_pos run, if_neg retry]
    split_ifs with elapsed
    · obtain h | ⟨report, h⟩ := Option.eq_none_or_eq_some s.kbRpt
      · rw [sendPending_none now (by exact h)]
        exact .quiet
      · rw [sendPending_some report now (by exact h)]
        split_ifs with sent
        · refine .resent report ?_ h sent
          simp only [resends, decide_eq_true_eq]
          exact ⟨run.1, retry, run.2.2, elapsed⟩
        · rw [List.append_nil]
          exact .quiet
    · exact .quiet

/-- A report goes into the queue where there is room. -/
theorem reportBufferEnqueue_outcome {e : Input K} {report : Report K} (h : submits c s e = some report)
    (state : sends c s e = true) (direct : sendsDirectly c s e = false) :
    Outcome c s e (pipe c (reportBufferEnqueue c (submit c s report) (submission c s report))) := by
  unfold reportBufferEnqueue submit
  cases full : s.queue.enqueue (submission c s report) with
  | none =>
    exact .refused report h state direct (Ring.enqueue_eq_none.1 full)
  | some queue =>
    have := Outcome.queued report h state direct
    rw [← Ring.contents_enqueue full] at this
    exact this

theorem bluetoothConnect_pipe (now : BitVec 32) (criticalLow : Bool) :
    pipe c (bluetoothConnect c s now criticalLow) = pipe c s := by
  unfold bluetoothConnect
  split_ifs
  · rfl
  · rfl

theorem sendConsumer_outcome (now : BitVec 32) (usage : UInt16) (criticalLow : Bool) :
    Outcome c s (.sendConsumer now usage criticalLow) (pipe c (bluetoothSendConsumer c s now usage criticalLow)) := by
  have h : submits c s (.sendConsumer now usage criticalLow) = some (.consumer usage) := rfl
  unfold bluetoothSendConsumer
  split_ifs with state direct reset
  · exact .direct _ h (by simp [sends, state]) (by simpa [sendsDirectly] using direct) (Ring.contents_eq_nil.2 direct.1)
  · exact reportBufferEnqueue_outcome h (by simp [sends, state]) (by simpa [sendsDirectly] using direct)
  · rw [bluetoothConnect_pipe]
    exact .unsent _ h (by simp [sends, state])
  · exact .unsent _ h (by simp [sends, state])

theorem reportBufferTask_idle {now : BitVec 32} (h : s.btState ≠ .connected ∨ s.queue.isEmpty = true ∧ s.retry = 0) :
    reportBufferTask c s now = s := by
  unfold reportBufferTask
  rw [if_neg]
  rintro ⟨state, some, -⟩
  rcases h with h | ⟨empty, retry⟩
  · exact h state
  · simp [empty, retry] at some

/-- The first NKRO report is queued and taken at once. -/
theorem firstBuffer_outcome {e : Input K} {report : Report K} {now : BitVec 32} (h : submits c s e = some report)
    (sent : sends c s e = true) (direct : sendsDirectly c s e = false) (soon : early e = decide (now.toNat ≤ 2))
    (empty : s.queue.isEmpty = true) (interval : reportBufferNextInterval c s now = true)
    (takes : s.btState = .connected → takes c s e = some (submission c s report)) :
    Outcome c s e (pipe c
      (reportBufferTask c { reportBufferEnqueue c (submit c s report) (submission c s report) with retry := 0 } now)) := by
  have queued := reportBufferEnqueue_outcome h sent direct
  by_cases state : s.btState = .connected
  swap
  · rw [reportBufferTask_idle]
    · exact queued
    · left
      unfold reportBufferEnqueue submit
      split <;> exact state
  unfold reportBufferEnqueue submit at queued ⊢
  cases added : s.queue.enqueue (submission c s report) with
  | none =>
    rw [added] at queued
    dsimp only at queued ⊢
    rw [reportBufferTask_idle (by exact Or.inr ⟨empty, rfl⟩)]
    exact queued
  | some queue =>
    dsimp only
    have contents := Ring.contents_enqueue added
    rw [Ring.contents_eq_nil.2 empty, List.nil_append] at contents
    cases taken : queue.dequeue with
    | none =>
      rw [Ring.dequeue_eq_none.1 taken] at contents
      cases contents
    | some pair =>
      obtain ⟨first, rest⟩ := pair
      have split := Ring.contents_dequeue taken
      rw [contents] at split
      injection split with head tail
      rw [reportBufferTask_taken (by exact state) (by exact interval) rfl taken, ← head, ← tail]
      have room : s.queue.contents.length + 1 ≠ c.queueSize := fun full => by
        rw [Ring.enqueue_eq_none.2 full] at added
        cases added
      have := Outcome.first report h (takes state) room direct (Ring.contents_eq_nil.2 empty)
      unfold takenEntry at this ⊢
      rw [soon] at this
      unfold pipe at this ⊢
      rw [Ring.contents_eq_nil.2 empty] at this
      exact this

theorem sendKeyboard_outcome (now : BitVec 32) (keyboard : K) (criticalLow : Bool) :
    Outcome c s (.sendKeyboard now keyboard criticalLow)
      (pipe c (bluetoothSendKeyboard c s now keyboard criticalLow)) := by
  have h : submits c s (.sendKeyboard now keyboard criticalLow) =
      some (if usesNkro c s then .nkro keyboard else .kb keyboard) := rfl
  unfold bluetoothSendKeyboard
  dsimp only
  have typed : (if usesNkro c s then Report.nkro keyboard else .kb keyboard).isKeyboard = true := by
    split_ifs
    · rfl
    · rfl
  have made : usesNkro c s = true → (if usesNkro c s then Report.nkro keyboard else .kb keyboard) = .nkro keyboard :=
    fun nkro => if_pos nkro
  generalize (if usesNkro c s then Report.nkro keyboard else .kb keyboard) = report at h typed made ⊢
  split_ifs with silent active nkro first direct reset
  · exact .unsent report h (by simp [sends, pinState, silent])
  · refine firstBuffer_outcome h (by simp [sends, active]) (by simp [sendsDirectly, nkro]) rfl first.1 first.2.1 ?_
    intro state
    rw [takes, if_pos ⟨nkro, state, first⟩, made nkro]
  · exact reportBufferEnqueue_outcome h (by simp [sends, active]) (by simp [sendsDirectly, nkro])
  · have := Outcome.direct report h (by simp [sends, active]) (by simpa [sendsDirectly, nkro] using direct)
      (Ring.contents_eq_nil.2 direct.1)
    rw [typed] at this
    exact this
  · exact reportBufferEnqueue_outcome h (by simp [sends, active]) (by simpa [sendsDirectly, nkro] using direct)
  · rw [bluetoothConnect_pipe]
    exact .unsent report h (by simpa [sends] using active)
  · exact .unsent report h (by simpa [sends] using active)

/-- What every input does. -/
theorem step_outcome (e : Input K) : Outcome c s e (pipe c (step c s e)) := by
  cases e with
  | sendKeyboard now keyboard criticalLow => exact sendKeyboard_outcome now keyboard criticalLow
  | sendConsumer now usage criticalLow => exact sendConsumer_outcome now usage criticalLow
  | task now => exact reportBufferTask_outcome now
  | effect effect => cases effect <;> exact .quiet
  | event now event =>
    obtain ⟨evtType, param⟩ := event
    cases evtType
    case disconnected =>
      have := Outcome.emptied (c := c) (s := s) (e := .event now ⟨.disconnected, param⟩) rfl
      rw [← Ring.contents_cleared s.queue] at this
      exact this
    all_goals exact .quiet
  | pairing criticalLow =>
    unfold step
    cases criticalLow <;> exact .quiet
  | connect now criticalLow =>
    show Outcome c s _ (pipe c (bluetoothConnect c s now criticalLow))
    rw [bluetoothConnect_pipe]
    exact .quiet
  | nkro keymap bluetooth => exact .quiet
  | wakeUp now =>
    have := Outcome.emptied (c := c) (s := s) (e := .wakeUp now) rfl
    rw [← Ring.contents_cleared s.queue] at this
    exact this

end Driver

end QmkFirmware.Bluetooth
