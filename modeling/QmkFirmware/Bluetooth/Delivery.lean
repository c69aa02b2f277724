import QmkFirmware.Bluetooth.Order

/-!
# The delivery of keyboard reports

What is handed over in the end, and what is handed over while the pin code is entered.
-/

namespace QmkFirmware.Bluetooth
open Lib Driver

variable {K : Type}

/-! ## The last report -/

/-- The keyboard reports of a list -/
def keyboardReports (l : List (Submission K)) : List (Submission K) := l.filter fun r => r.report.isKeyboard

@[simp] theorem keyboardReports_append (l m : List (Submission K)) :
    keyboardReports (l ++ m) = keyboardReports l ++ keyboardReports m := List.filter_append _ _

@[simp] theorem keyboardReports_nil : keyboardReports ([] : List (Submission K)) = [] := rfl

theorem keyboardReports_single {r : Submission K} (h : r.report.isKeyboard = true) : keyboardReports [r] = [r] := by
  simp [keyboardReports, h]

theorem keyboardReports_other {r : Submission K} (h : r.report.isKeyboard = false) : keyboardReports [r] = [] := by
  simp [keyboardReports, h]

/-- The reports handed over -/
def Pipe.sent (p : Pipe K) : List (Submission K) := p.handed.map fun h => h.submission

/-- The last keyboard report submitted, and the last one handed over -/
def Pipe.lastSubmitted (p : Pipe K) : Option (Submission K) := (keyboardReports p.submitted).getLast?

def Pipe.lastHanded (p : Pipe K) : Option (Submission K) := (keyboardReports p.sent).getLast?

section Last

variable (c : DriverConfig)

/-- The last keyboard report submitted was handed over last, or waits last, and `kb_rpt`
is the last one handed over unless one went past the queue. -/
structure Pipe.Current (p : Pipe K) : Prop where
  last : (keyboardReports p.sent ++ keyboardReports p.queue).getLast? = p.lastSubmitted
  able : ∀ r ∈ p.queue, transmits c r.report = true
  kept : p.stale = false → ∀ k, p.kbRpt = some k → k.report.isKeyboard = true → p.lastHanded = some k

/-- The queue has room for a keyboard report that goes there, there is a function of the
transport for it, it is not taken in the first 2 ms, no `kb_rpt` is sent too late, and no
keyboard report waits when the buffer is emptied. -/
def KeepsLast (s : Driver K c.queueSize) (e : Input K) : Prop :=
  (∀ r ∈ submits c s e, r.isKeyboard = true →
    transmits c r = true ∧ (sendsDirectly c s e = false → s.queue.contents.length + 1 ≠ c.queueSize)) ∧
  (∀ k ∈ takes c s e, k.report.isKeyboard = true → early e = false) ∧
  ResendOk c s e ∧
  (empties e = true → ∀ r ∈ s.queue.contents, r.report.isKeyboard = false)

/-- The driver stays connected. -/
def StaysConnected (s : Driver K c.queueSize) (e : Input K) : Prop := (step c s e).btState = .connected

variable {c} {s : Driver K c.queueSize} {e : Input K} {p : Pipe K}

@[simp] theorem sent_append (more : List (Handed K)) :
    Pipe.sent { p with handed := p.handed ++ more } = p.sent ++ more.map fun h => h.submission := by
  simp [Pipe.sent]

/-- A report is put behind all others. -/
theorem getLast_snoc {l m : List (Submission K)} {r : Submission K} (h : l.getLast? = m.getLast?) :
    (l ++ keyboardReports [r]).getLast? = (m ++ keyboardReports [r]).getLast? := by
  cases typed : r.report.isKeyboard with
  | true => simp [keyboardReports_single typed]
  | false => simp [keyboardReports_other typed, h]

/-- The last report is repeated. -/
theorem getLast_repeat {l : List (Submission K)} {r : Submission K} (h : l.getLast? = some r) (m : List (Submission K)) :
    (l ++ [r] ++ m).getLast? = (l ++ m).getLast? := by
  rw [List.getLast?_append, List.getLast?_concat, List.getLast?_append, h]

/-- A report that is no keyboard report is dropped. -/
theorem Pipe.Current.drop (h : p.Current c) {r : Submission K} (other : r.report.isKeyboard = false) :
    Pipe.Current c { p with submitted := p.submitted ++ [r] } where
  last := by
    rw [Pipe.lastSubmitted, keyboardReports_append, keyboardReports_other other, List.append_nil]
    exact h.last
  able := h.able
  kept := h.kept

/-- A report goes into the queue. -/
theorem Pipe.Current.enqueue (h : p.Current c) {r : Submission K} (able : transmits c r.report = true) :
    Pipe.Current c { p with submitted := p.submitted ++ [r], queue := p.queue ++ [r] } where
  last := by
    rw [Pipe.lastSubmitted, keyboardReports_append, keyboardReports_append, ← List.append_assoc]
    exact getLast_snoc h.last
  able r' hr := by
    rcases List.mem_append.1 hr with old | new
    · exact h.able r' old
    · rw [List.mem_singleton.1 new]
      exact able
  kept := h.kept

/-- A report goes past the empty queue. -/
theorem Pipe.Current.direct (h : p.Current c) {r : Handed K} (empty : p.queue = []) :
    Pipe.Current c { p with
      submitted := p.submitted ++ [r.submission]
      handed := p.handed ++ [r]
      stale := r.submission.report.isKeyboard || p.stale } := by
  have last := h.last
  rw [empty, keyboardReports_nil, List.append_nil] at last
  constructor
  case last =>
    show (keyboardReports (Pipe.sent { p with handed := p.handed ++ [r] }) ++ keyboardReports p.queue).getLast? = _
    rw [sent_append, Pipe.lastSubmitted, keyboardReports_append, keyboardReports_append, empty, keyboardReports_nil,
      List.append_nil]
    exact getLast_snoc last
  case able => exact h.able
  case kept =>
    intro fresh k hk typed
    rw [Bool.or_eq_false_iff] at fresh
    show (keyboardReports (Pipe.sent { p with handed := p.handed ++ [r] })).getLast? = _
    rw [sent_append, keyboardReports_append]
    rw [show [r].map (fun h => h.submission) = [r.submission] from rfl, keyboardReports_other fresh.1, List.append_nil]
    exact h.kept fresh.2 k hk typed

/-- A report is taken from the queue, and handed over if it is a keyboard report. -/
theorem Pipe.Current.take (h : p.Current c) {r : Submission K} {rest : List (Submission K)} (queue : p.queue = r :: rest)
    {more : List (Handed K)} (sent : keyboardReports (more.map fun h => h.submission) = keyboardReports [r]) :
    Pipe.Current c { p with handed := p.handed ++ more, queue := rest, kbRpt := some r, stale := false } := by
  have handed : keyboardReports (Pipe.sent { p with handed := p.handed ++ more }) =
      keyboardReports p.sent ++ keyboardReports [r] := by
    rw [sent_append, keyboardReports_append, sent]
  have last := h.last
  rw [queue, ← List.singleton_append, keyboardReports_append, ← List.append_assoc] at last
  constructor
  case last =>
    show (keyboardReports (Pipe.sent { p with handed := p.handed ++ more }) ++ keyboardReports rest).getLast? = _
    rw [handed]
    exact last
  case able =>
    intro r' hr
    refine h.able r' ?_
    rw [queue]
    exact List.mem_cons_of_mem _ hr
  case kept =>
    intro _ k hk typed
    injection hk with hk
    subst hk
    show (keyboardReports (Pipe.sent { p with handed := p.handed ++ more })).getLast? = _
    rw [handed, keyboardReports_single typed, List.getLast?_concat]

/-- `kb_rpt` is sent again and is not too late. -/
theorem Pipe.Current.resend (h : p.Current c) {r : Handed K} (kbRpt : p.kbRpt = some r.submission)
    (ok : r.submission.report.isKeyboard = true → p.stale = false) :
    Pipe.Current c { p with handed := p.handed ++ [r] } := by
  have handed : keyboardReports (Pipe.sent { p with handed := p.handed ++ [r] }) =
      keyboardReports p.sent ++ keyboardReports [r.submission] := by
    rw [sent_append, keyboardReports_append]
    rfl
  have same : ∀ m : List (Submission K),
      (keyboardReports (Pipe.sent { p with handed := p.handed ++ [r] }) ++ m).getLast? =
        (keyboardReports p.sent ++ m).getLast? := by
    intro m
    rw [handed]
    cases typed : r.submission.report.isKeyboard with
    | false => rw [keyboardReports_other typed, List.append_nil]
    | true =>
      rw [keyboardReports_single typed]
      exact getLast_repeat (h.kept (ok typed) _ kbRpt typed) m
  constructor
  case last => exact (same _).trans h.last
  case able => exact h.able
  case kept =>
    intro fresh k hk typed
    have := same []
    rw [List.append_nil, List.append_nil] at this
    exact this.trans (h.kept fresh k hk typed)

/-- Nothing that is a keyboard report waits, and the rest is dropped. -/
theorem Pipe.Current.empty (h : p.Current c) (others : ∀ r ∈ p.queue, r.report.isKeyboard = false) :
    Pipe.Current c { p with queue := [] } where
  last := by
    have none : keyboardReports p.queue = [] := List.filter_eq_nil_iff.2 fun r hr => by simp [others r hr]
    have last := h.last
    rw [none] at last
    exact last
  able _ hr := by cases hr
  kept := h.kept

theorem transmits_other {r : Report K} (h : r.isKeyboard = false) : transmits c r = true := by
  cases r with
  | consumer => rfl
  | kb => cases h
  | nkro => cases h

/-- What taking a report hands over, as far as keyboard reports are concerned -/
theorem keyboardReports_takenEntry {r : Submission K} (able : transmits c r.report = true)
    (late : r.report.isKeyboard = true → early e = false) :
    keyboardReports ((takenEntry c s e r).map fun h => h.submission) = keyboardReports [r] := by
  unfold takenEntry
  cases typed : r.report.isKeyboard with
  | true =>
    rw [if_pos ⟨late typed, able⟩]
    rfl
  | false =>
    rw [keyboardReports_other typed]
    split_ifs
    · exact keyboardReports_other typed
    · rfl

theorem outcome_current (h : (pipe c s).Current c) (connected : s.btState = .connected) (ok : KeepsLast c s e)
    (outcome : Outcome c s e p) : p.Current c := by
  obtain ⟨submitted, taken, resent, emptied⟩ := ok
  have able : ∀ report, submits c s e = some report → transmits c report = true := by
    intro report sub
    cases typed : report.isKeyboard with
    | true => exact (submitted report sub typed).1
    | false => exact transmits_other typed
  cases outcome with
  | quiet => exact h
  | emptied empties => exact h.empty (emptied empties)
  | unsent report sub silent =>
    have : sends c s e = true := by
      unfold sends
      cases e <;> simp [connected]
    rw [silent] at this
    cases this
  | refused report sub state direct full =>
    refine h.drop ?_
    by_contra typed
    exact (submitted report sub (by simpa [submission] using typed)).2 direct full
  | queued report sub state direct => exact h.enqueue (able report sub)
  | direct report sub state direct empty => exact Pipe.Current.direct (r := entry c s (submission c s report)) h empty
  | first report sub takes room direct empty =>
    have queued := Pipe.Current.enqueue (r := submission c s report) h (able report sub)
    exact Pipe.Current.take queued (by simp [pipe, empty])
      (keyboardReports_takenEntry (able report sub) (taken _ takes))
  | taken report rest takes queue =>
    refine h.take queue (keyboardReports_takenEntry (h.able report ?_) (taken report takes))
    show report ∈ s.queue.contents
    rw [queue]
    exact List.mem_cons_self
  | resent report due kbRpt sent =>
    exact Pipe.Current.resend (r := entry c s report) h kbRpt fun typed => resent due report kbRpt typed sent

/-- After the connection was made -/
def started [Inhabited K] (c : DriverConfig) (now : BitVec 32) : Driver K c.queueSize :=
  step c (init c now) (.event now ⟨.connected, 0⟩)

theorem started_current [Inhabited K] (now : BitVec 32) : (pipe c (started c now : Driver K c.queueSize)).Current c := by
  have queue : (pipe c (started c now : Driver K c.queueSize)).queue = [] :=
    Ring.contents_empty c.queueSize_pos (⟨0, false, .kb default⟩ : Submission K)
  constructor
  case last =>
    rw [queue]
    rfl
  case able =>
    rw [queue]
    exact fun _ hr => by cases hr
  case kept => exact fun _ _ hk => by cases hk

/-- The queue is empty and nothing is to be sent again. -/
def Drained (s : Driver K c.queueSize) : Prop := s.queue.isEmpty = true ∧ s.retry = 0

/-- In every connected run whose steps meet the condition, the last keyboard report handed
over is the last one submitted whenever the driver has drained. -/
theorem last_report_handed [Inhabited K] (c : DriverConfig) (now : BitVec 32) (inputs : List (Input K))
    (connected : Along (step c) (StaysConnected c) (started c now) inputs)
    (ok : Along (step c) (KeepsLast c) (started c now) inputs) :
    let s := inputs.foldl (step c) (started c now)
    Drained s → (pipe c s).lastHanded = (pipe c s).lastSubmitted := by
  intro s drained
  have current : s.btState = .connected ∧ (pipe c s).Current c :=
    Along.invariant (fun s => s.btState = .connected ∧ (pipe c s).Current c)
      (fun _ e h ok => ⟨ok.1, outcome_current h.2 h.1 ok.2 (step_outcome e)⟩) ⟨rfl, started_current now⟩
      (connected.and ok)
  have last := current.2.last
  have none : (pipe c s).queue = [] := Ring.contents_eq_nil.2 drained.1
  rw [none, keyboardReports_nil, List.append_nil] at last
  exact last

instance (s : Driver K c.queueSize) (e : Input K) : Decidable (ResendOk c s e) :=
  inferInstanceAs (Decidable (_ → ∀ k ∈ s.kbRpt, _ → _ → _))

instance (s : Driver K c.queueSize) (e : Input K) : Decidable (KeepsLast c s e) :=
  inferInstanceAs (Decidable (_ ∧ _ ∧ _ ∧ _))

instance (s : Driver K c.queueSize) (e : Input K) : Decidable (StaysConnected c s e) :=
  inferInstanceAs (Decidable (_ = _))

instance (s : Driver K c.queueSize) : Decidable (Drained s) := inferInstanceAs (Decidable (_ ∧ _))

/-- A press and a release, the second through the queue and acknowledged. -/
def pressAndRelease : List (Input Nat) :=
  [.sendKeyboard 10 1 false, .sendKeyboard 11 0 false, .task 15, .effect (.setRetry 0)]

theorem last_report_handed_release :
    let s := pressAndRelease.foldl (step sixKeys) (started sixKeys 5)
    Drained s ∧ (pipe sixKeys s).lastHanded = (pipe sixKeys s).lastSubmitted :=
  have drained : Drained (pressAndRelease.foldl (step sixKeys) (started sixKeys 5)) := by decide
  ⟨drained, last_report_handed sixKeys 5 pressAndRelease (by decide) (by decide) drained⟩

/-- Two slots -/
def smallQueue : DriverConfig := ⟨2, Nat.zero_lt_two, 30, false, false⟩

/-- A queued report is sent again after one that went past the queue, and a report that
does not fit is dropped. -/
theorem last_report_lost :
    ¬ (∀ inputs : List (Input Nat), Along (step sixKeys) (StaysConnected sixKeys) (started sixKeys 5) inputs →
      let s := inputs.foldl (step sixKeys) (started sixKeys 5)
      Drained s → (pipe sixKeys s).lastHanded = (pipe sixKeys s).lastSubmitted) ∧
    ¬ (∀ inputs : List (Input Nat), Along (step smallQueue) (StaysConnected smallQueue) (started smallQueue 5) inputs →
      let s := inputs.foldl (step smallQueue) (started smallQueue 5)
      Drained s → (pipe smallQueue s).lastHanded = (pipe smallQueue s).lastSubmitted) := by
  constructor
  · intro h
    have := h [.sendKeyboard 10 1 false, .sendKeyboard 11 2 false, .task 15, .sendKeyboard 20 0 false, .task 30,
      .effect (.setRetry 0)] (by decide) (by decide)
    exact absurd this (by decide)
  · intro h
    have := h [.sendKeyboard 10 1 false, .sendKeyboard 11 2 false, .sendKeyboard 12 0 false, .task 15,
      .effect (.setRetry 0)] (by decide) (by decide)
    exact absurd this (by decide)

end Last

/-! ## Reports made while the pin code is entered -/

section PinCode

variable (c : DriverConfig)

/-- The reports submitted while the pin code is entered -/
def pinReports (l : List (Submission K)) : List (Submission K) := l.filter fun r => r.pin

/-- Every report submitted while the pin code is entered has been handed over, in this
order, and while it was entered. -/
structure Pipe.PinDelivered (p : Pipe K) : Prop where
  all : pinReports p.sent = pinReports p.submitted
  during : ∀ h ∈ p.handed, h.submission.pin = true → h.btState = .paring ∧ h.pincodeEntry = true

/-- None waits. -/
structure Pipe.PinSound (p : Pipe K) : Prop extends p.PinDelivered where
  queue : ∀ r ∈ p.queue, r.pin = false
  kbRpt : ∀ k, p.kbRpt = some k → k.pin = false

/-- A report that is submitted while the pin code is entered is a six-key report, finds the
queue empty and the report interval over. -/
def PinOk (s : Driver K c.queueSize) (e : Input K) : Prop :=
  pinState c s = true → ∀ r ∈ submits c s e, r.isKeyboard = true → sendsDirectly c s e = true

variable {c} {s : Driver K c.queueSize} {e : Input K} {p : Pipe K}

@[simp] theorem pinReports_append (l m : List (Submission K)) : pinReports (l ++ m) = pinReports l ++ pinReports m :=
  List.filter_append _ _

theorem pinReports_other {r : Submission K} (h : r.pin = false) : pinReports [r] = [] := by simp [pinReports, h]

/-- A report from another state is submitted. -/
theorem Pipe.PinSound.submit (h : p.PinSound) {r : Submission K} (other : r.pin = false) :
    Pipe.PinSound { p with submitted := p.submitted ++ [r] } where
  all := by
    rw [pinReports_append, pinReports_other other, List.append_nil]
    exact h.all
  during := h.during
  queue := h.queue
  kbRpt := h.kbRpt

/-- It goes into the queue. -/
theorem Pipe.PinSound.enqueue (h : p.PinSound) {r : Submission K} (other : r.pin = false) :
    Pipe.PinSound { p with queue := p.queue ++ [r] } where
  all := h.all
  during := h.during
  queue r' hr := by
    rcases List.mem_append.1 hr with old | new
    · exact h.queue r' old
    · rw [List.mem_singleton.1 new]
      exact other
  kbRpt := h.kbRpt

/-- Reports from other states are handed over. -/
theorem Pipe.PinSound.log (h : p.PinSound) {more : List (Handed K)} (others : ∀ r ∈ more, r.submission.pin = false) :
    Pipe.PinSound { p with handed := p.handed ++ more } where
  all := by
    have none : pinReports (more.map fun h => h.submission) = [] := by
      refine List.filter_eq_nil_iff.2 fun r hr => ?_
      obtain ⟨entry, mem, rfl⟩ := List.mem_map.1 hr
      simp [others entry mem]
    rw [sent_append, pinReports_append, none, List.append_nil]
    exact h.all
  during r hr pin := by
    rcases List.mem_append.1 hr with old | new
    · exact h.during r old pin
    · rw [others r new] at pin
      cases pin
  queue := h.queue
  kbRpt := h.kbRpt

/-- A report is handed over as it is submitted. -/
theorem Pipe.PinSound.direct (h : p.PinSound) {r : Handed K}
    (during : r.submission.pin = true → r.btState = .paring ∧ r.pincodeEntry = true) (stale : Bool) :
    Pipe.PinSound { p with submitted := p.submitted ++ [r.submission], handed := p.handed ++ [r], stale } where
  all := by
    show pinReports (Pipe.sent { p with handed := p.handed ++ [r] }) = _
    rw [sent_append, pinReports_append, pinReports_append, h.all]
    rfl
  during r' hr pin := by
    rcases List.mem_append.1 hr with old | new
    · exact h.during r' old pin
    · rw [List.mem_singleton.1 new] at pin ⊢
      exact during pin
  queue := h.queue
  kbRpt := h.kbRpt

/-- A report from another state is taken from the queue. -/
theorem Pipe.PinSound.take (h : p.PinSound) {r : Submission K} {rest : List (Submission K)} (queue : p.queue = r :: rest) :
    r.pin = false ∧ Pipe.PinSound { p with queue := rest, kbRpt := some r, stale := false } := by
  have others := h.queue
  rw [queue] at others
  have first := others r List.mem_cons_self
  refine ⟨first, ⟨h.all, h.during⟩, fun r' hr => others r' (List.mem_cons_of_mem _ hr), fun k hk => ?_⟩
  injection hk with hk
  rw [← hk]
  exact first

theorem Pipe.PinSound.empty (h : p.PinSound) : Pipe.PinSound { p with queue := [] } where
  all := h.all
  during := h.during
  queue _ hr := by cases hr
  kbRpt := h.kbRpt

theorem takenEntry_pin {r : Submission K} (other : r.pin = false) :
    ∀ h ∈ takenEntry c s e r, h.submission.pin = false := by
  unfold takenEntry
  split_ifs
  · intro h mem
    rw [List.mem_singleton.1 mem]
    exact other
  · exact fun h mem => by cases mem

theorem outcome_pin (h : (pipe c s).PinSound) (ok : PinOk c s e) (outcome : Outcome c s e p) : p.PinSound := by
  have other : ∀ report, submits c s e = some report → sends c s e = false ∨ sendsDirectly c s e = false →
      (submission c s report).pin = false := by
    intro report sub indirect
    by_contra pin
    have : pinState c s = true ∧ report.isKeyboard = true := by simpa [submission] using pin
    rcases indirect with silent | indirect
    · cases e with
      | sendKeyboard => simp [sends, this.1] at silent
      | sendConsumer =>
        injection sub with sub
        rw [← sub] at this
        cases this.2
      | _ => cases sub
    · rw [ok this.1 report sub this.2] at indirect
      cases indirect
  cases outcome with
  | quiet => exact h
  | emptied => exact h.empty
  | unsent report sub silent => exact h.submit (other report sub (Or.inl silent))
  | refused report sub _ direct => exact h.submit (other report sub (Or.inr direct))
  | queued report sub _ direct =>
    have pin := other report sub (Or.inr direct)
    exact (h.submit pin).enqueue pin
  | direct report =>
    refine Pipe.PinSound.direct (r := entry c s (submission c s report)) h (fun pin => ?_) _
    have : pinState c s = true ∧ report.isKeyboard = true := by simpa [submission, entry] using pin
    simpa [pinState, entry] using this.1
  | first report sub _ _ direct empty =>
    have pin := other report sub (Or.inr direct)
    have queued := (h.submit pin).enqueue pin
    have only : (pipe c s).queue ++ [submission c s report] = submission c s report :: s.queue.contents := by
      simp [pipe, empty]
    exact (queued.take only).2.log (takenEntry_pin pin)
  | taken report rest _ queue =>
    obtain ⟨pin, taken⟩ := h.take queue
    exact taken.log (takenEntry_pin pin)
  | resent report _ kbRpt =>
    refine h.log fun r hr => ?_
    rw [List.mem_singleton.1 hr]
    exact h.kbRpt report kbRpt

/-- In every run whose submissions meet the condition, the reports made while the pin code
is entered are handed over in order while it is entered, and never later. -/
theorem pin_code_delivered [Inhabited K] (c : DriverConfig) (now : BitVec 32) (inputs : List (Input K))
    (ok : Along (step c) (PinOk c) (init c now) inputs) :
    (pipe c (inputs.foldl (step c) (init c now))).PinDelivered := by
  have start : (pipe c (init c now : Driver K c.queueSize)).PinSound := by
    refine ⟨⟨rfl, fun _ hr => by cases hr⟩, ?_, fun _ hk => by cases hk⟩
    intro r hr
    have none : (pipe c (init c now : Driver K c.queueSize)).queue = [] :=
      Ring.contents_empty c.queueSize_pos (⟨0, false, .kb default⟩ : Submission K)
    rw [none] at hr
    cases hr
  exact (Along.invariant (fun s => (pipe c s).PinSound) (fun _ e h ok => outcome_pin h ok (step_outcome e)) start
    ok).toPinDelivered

instance (s : Driver K c.queueSize) (e : Input K) : Decidable (PinOk c s e) :=
  inferInstanceAs (Decidable (_ → ∀ r ∈ submits c s e, _ → _))

/-- Two digits, one report interval apart, and then the connection -/
theorem pin_code_delivered_slowly :
    let inputs : List (Input Nat) := [.event 5 ⟨.discoverable, 0⟩, .event 6 ⟨.pincodeEntry, 0⟩,
      .sendKeyboard 10 1 false, .sendKeyboard 20 0 false, .event 30 ⟨.connected, 0⟩, .task 40]
    (pipe sixKeys (inputs.foldl (step sixKeys) (init sixKeys 0))).PinDelivered :=
  pin_code_delivered sixKeys 0 _ (by decide)

/-- A release that follows its press within the report interval waits in the queue, and is
handed over to the connected host. -/
theorem pin_code_typed_into_host :
    ¬ ∀ inputs : List (Input Nat), ∀ h ∈ (inputs.foldl (step sixKeys) (init sixKeys 0)).handed,
      h.submission.pin = true → h.btState ≠ .connected := by
  intro h
  have := h [.event 5 ⟨.discoverable, 0⟩, .event 6 ⟨.pincodeEntry, 0⟩, .sendKeyboard 10 1 false,
    .sendKeyboard 12 0 false, .event 20 ⟨.connected, 0⟩, .task 30]
  exact absurd this (by decide)

end PinCode

end QmkFirmware.Bluetooth
