import QmkFirmware.Bluetooth.Driver

/-!
# The order of keyboard reports

The queue keeps the order of submission. A keyboard report that goes past the empty
queue is later than `kb_rpt`, so the order is lost exactly where `kb_rpt` is sent
again after it.
-/

namespace QmkFirmware.Bluetooth
open Lib Driver

variable {K : Type}

/-- The submission numbers of the keyboard reports in a log -/
def keyboards (log : List (Handed K)) : List Nat :=
  (log.filter fun h => h.submission.report.isKeyboard).map fun h => h.submission.serial

@[simp] theorem keyboards_append (l m : List (Handed K)) : keyboards (l ++ m) = keyboards l ++ keyboards m := by
  simp [keyboards]

theorem mem_keyboards_entry {h : Handed K} {n : Nat} :
    n ∈ keyboards [h] ↔ h.submission.report.isKeyboard = true ∧ n = h.submission.serial := by
  unfold keyboards
  cases typed : h.submission.report.isKeyboard <;> simp [typed]

/-- No keyboard report is handed over after one that was submitted later. -/
def Pipe.Ordered (p : Pipe K) : Prop := (keyboards p.handed).Pairwise (· ≤ ·)

instance (p : Pipe K) : Decidable p.Ordered := inferInstanceAs (Decidable (List.Pairwise _ _))

/-- The queue is in order and later than what was handed over, and so is `kb_rpt`, which
is the last keyboard report unless one went past the queue. -/
structure Pipe.InOrder (p : Pipe K) : Prop where
  ordered : p.Ordered
  sorted : p.queue.Pairwise fun a b => a.serial < b.serial
  numbered : ∀ r ∈ p.queue, r.serial < p.submitted.length
  handed : ∀ n ∈ keyboards p.handed, n < p.submitted.length ∧ ∀ r ∈ p.queue, n < r.serial
  kept : ∀ k, p.kbRpt = some k → k.serial < p.submitted.length ∧ ∀ r ∈ p.queue, k.serial < r.serial
  fresh : p.stale = false → ∀ k, p.kbRpt = some k → k.report.isKeyboard = true →
    ∀ n ∈ keyboards p.handed, n ≤ k.serial
  passed : p.stale = true → ∀ k, p.kbRpt = some k → ∃ n ∈ keyboards p.handed, k.serial < n

section Steps

variable (c : DriverConfig)

/-- `kb_rpt` is not sent again where it is a keyboard report and one went past the queue
since it was taken. -/
def ResendOk (s : Driver K c.queueSize) (e : Input K) : Prop :=
  resends c s e = true → ∀ k, s.kbRpt = some k → k.report.isKeyboard = true → transmits c k.report = true →
    s.stale = false

variable {c} {s : Driver K c.queueSize} {e : Input K} {p : Pipe K}

/-- A log that grows by reports that are not earlier stays in order. -/
theorem ordered_append {log more : List (Handed K)} (ordered : (keyboards log).Pairwise (· ≤ ·))
    (sorted : (keyboards more).Pairwise (· ≤ ·)) (later : ∀ n ∈ keyboards log, ∀ m ∈ keyboards more, n ≤ m) :
    (keyboards (log ++ more)).Pairwise (· ≤ ·) := by
  rw [keyboards_append]
  exact List.pairwise_append.2 ⟨ordered, sorted, later⟩

theorem keyboards_takenEntry {report : Submission K} {n : Nat} (h : n ∈ keyboards (takenEntry c s e report)) :
    report.report.isKeyboard = true ∧ n = report.serial := by
  unfold takenEntry at h
  split_ifs at h
  · exact mem_keyboards_entry.1 h
  · cases h

theorem keyboards_single (h : Handed K) : (keyboards [h]).Pairwise (· ≤ ·) := by
  unfold keyboards
  cases typed : h.submission.report.isKeyboard <;> simp [typed]

theorem takenEntry_sorted {report : Submission K} : (keyboards (takenEntry c s e report)).Pairwise (· ≤ ·) := by
  unfold takenEntry
  split_ifs
  · exact keyboards_single _
  · exact List.Pairwise.nil

/-- A report is submitted. -/
theorem Pipe.InOrder.submit (h : p.InOrder) (r : Submission K) :
    Pipe.InOrder { p with submitted := p.submitted ++ [r] } where
  ordered := h.ordered
  sorted := h.sorted
  numbered r' hr := by
    have := h.numbered r' hr
    simp only [List.length_append, List.length_singleton]
    omega
  handed n hn := by
    have := (h.handed n hn).1
    refine ⟨?_, (h.handed n hn).2⟩
    simp only [List.length_append, List.length_singleton]
    omega
  kept k hk := by
    have := (h.kept k hk).1
    refine ⟨?_, (h.kept k hk).2⟩
    simp only [List.length_append, List.length_singleton]
    omega
  fresh := h.fresh
  passed := h.passed

/-- It goes into the queue. -/
theorem Pipe.InOrder.enqueue (h : p.InOrder) {r : Submission K} (number : r.serial = p.submitted.length) :
    Pipe.InOrder { p with submitted := p.submitted ++ [r], queue := p.queue ++ [r] } where
  ordered := h.ordered
  sorted := by
    refine List.pairwise_append.2 ⟨h.sorted, List.pairwise_singleton _ _, fun a ha b hb => ?_⟩
    have := h.numbered a ha
    rw [List.mem_singleton.1 hb]
    omega
  numbered r' hr := by
    simp only [List.length_append, List.length_singleton]
    rcases List.mem_append.1 hr with old | new
    · have := h.numbered r' old
      omega
    · rw [List.mem_singleton.1 new]
      omega
  handed n hn := by
    have := (h.handed n hn).1
    simp only [List.length_append, List.length_singleton]
    refine ⟨by omega, fun r' hr => ?_⟩
    rcases List.mem_append.1 hr with old | new
    · exact (h.handed n hn).2 r' old
    · rw [List.mem_singleton.1 new]
      omega
  kept k hk := by
    have := (h.kept k hk).1
    simp only [List.length_append, List.length_singleton]
    refine ⟨by omega, fun r' hr => ?_⟩
    rcases List.mem_append.1 hr with old | new
    · exact (h.kept k hk).2 r' old
    · rw [List.mem_singleton.1 new]
      omega
  fresh := h.fresh
  passed := h.passed

/-- Or it goes past the empty queue. -/
theorem Pipe.InOrder.direct (h : p.InOrder) {r : Handed K} (number : r.submission.serial = p.submitted.length)
    (empty : p.queue = []) :
    Pipe.InOrder { p with
      submitted := p.submitted ++ [r.submission]
      handed := p.handed ++ [r]
      stale := r.submission.report.isKeyboard || p.stale } where
  ordered := by
    refine ordered_append h.ordered (keyboards_single r) fun n hn m hm => ?_
    have := (h.handed n hn).1
    rw [(mem_keyboards_entry.1 hm).2]
    omega
  sorted := h.sorted
  numbered r' hr := by
    simp only [empty] at hr
    cases hr
  handed n hn := by
    rw [keyboards_append] at hn
    simp only [List.length_append, List.length_singleton, empty]
    refine ⟨?_, fun _ hr => by cases hr⟩
    rcases List.mem_append.1 hn with old | new
    · have := (h.handed n old).1
      omega
    · rw [(mem_keyboards_entry.1 new).2]
      omega
  kept k hk := by
    have := (h.kept k hk).1
    simp only [List.length_append, List.length_singleton, empty]
    exact ⟨by omega, fun _ hr => by cases hr⟩
  fresh stale k hk typed n hn := by
    rw [Bool.or_eq_false_iff] at stale
    rw [keyboards_append] at hn
    rcases List.mem_append.1 hn with old | new
    · exact h.fresh stale.2 k hk typed n old
    · rw [(mem_keyboards_entry.1 new).1] at stale
      cases stale.1
  passed stale k hk := by
    rw [Bool.or_eq_true_iff] at stale
    rcases stale with typed | stale
    · refine ⟨r.submission.serial, ?_, ?_⟩
      · rw [keyboards_append]
        exact List.mem_append_right _ (mem_keyboards_entry.2 ⟨typed, rfl⟩)
      · rw [number]
        exact (h.kept k hk).1
    · obtain ⟨n, hn, later⟩ := h.passed stale k hk
      refine ⟨n, ?_, later⟩
      rw [keyboards_append]
      exact List.mem_append_left _ hn

/-- A report is taken from the queue. -/
theorem Pipe.InOrder.take (h : p.InOrder) {r : Submission K} {rest : List (Submission K)} (queue : p.queue = r :: rest)
    {more : List (Handed K)} (sorted : (keyboards more).Pairwise (· ≤ ·))
    (taken : ∀ n ∈ keyboards more, r.report.isKeyboard = true ∧ n = r.serial) :
    Pipe.InOrder { p with handed := p.handed ++ more, queue := rest, kbRpt := some r, stale := false } := by
  have behind := h.sorted
  rw [queue, List.pairwise_cons] at behind
  have first : r ∈ p.queue := by
    rw [queue]
    exact List.mem_cons_self
  have others : ∀ r' ∈ rest, r' ∈ p.queue := by
    intro r' hr
    rw [queue]
    exact List.mem_cons_of_mem _ hr
  constructor
  case ordered =>
    refine ordered_append h.ordered sorted fun n hn m hm => ?_
    have := (h.handed n hn).2 r first
    rw [(taken m hm).2]
    omega
  case sorted => exact behind.2
  case numbered => exact fun r' hr => h.numbered r' (others r' hr)
  case handed =>
    intro n hn
    rw [keyboards_append] at hn
    rcases List.mem_append.1 hn with old | new
    · exact ⟨(h.handed n old).1, fun r' hr => (h.handed n old).2 r' (others r' hr)⟩
    · rw [(taken n new).2]
      exact ⟨h.numbered r first, behind.1⟩
  case kept =>
    intro k hk
    injection hk with hk
    subst hk
    exact ⟨h.numbered r first, behind.1⟩
  case fresh =>
    intro _ k hk _ n hn
    injection hk with hk
    subst hk
    rw [keyboards_append] at hn
    rcases List.mem_append.1 hn with old | new
    · exact ((h.handed n old).2 r first).le
    · exact (taken n new).2.le
  case passed => exact fun stale => by cases stale

/-- `kb_rpt` is sent again and is not too late. -/
theorem Pipe.InOrder.resend (h : p.InOrder) {r : Handed K} (kbRpt : p.kbRpt = some r.submission)
    (ok : r.submission.report.isKeyboard = true → p.stale = false) :
    Pipe.InOrder { p with handed := p.handed ++ [r] } := by
  have last : ∀ m ∈ keyboards [r], ∀ n ∈ keyboards p.handed, n ≤ m := by
    intro m hm n hn
    obtain ⟨typed, rfl⟩ := mem_keyboards_entry.1 hm
    exact h.fresh (ok typed) _ kbRpt typed n hn
  constructor
  case ordered => exact ordered_append h.ordered (keyboards_single r) fun n hn m hm => last m hm n hn
  case sorted => exact h.sorted
  case numbered => exact h.numbered
  case handed =>
    intro n hn
    rw [keyboards_append] at hn
    rcases List.mem_append.1 hn with old | new
    · exact h.handed n old
    · rw [(mem_keyboards_entry.1 new).2]
      exact h.kept _ kbRpt
  case kept => exact h.kept
  case fresh =>
    intro stale k hk typed n hn
    rw [keyboards_append] at hn
    rcases List.mem_append.1 hn with old | new
    · exact h.fresh stale k hk typed n old
    · have same : k = r.submission := Option.some.inj (hk.symm.trans kbRpt)
      rw [(mem_keyboards_entry.1 new).2, same]
  case passed =>
    intro stale k hk
    obtain ⟨n, hn, later⟩ := h.passed stale k hk
    refine ⟨n, ?_, later⟩
    rw [keyboards_append]
    exact List.mem_append_left _ hn

theorem Pipe.InOrder.empty (h : p.InOrder) : Pipe.InOrder { p with queue := [] } where
  ordered := h.ordered
  sorted := List.Pairwise.nil
  numbered _ hr := by cases hr
  handed n hn := ⟨(h.handed n hn).1, fun _ hr => by cases hr⟩
  kept k hk := ⟨(h.kept k hk).1, fun _ hr => by cases hr⟩
  fresh := h.fresh
  passed := h.passed

/-- Every input keeps the order, as long as no `kb_rpt` is sent too late. -/
theorem outcome_inOrder (h : (pipe c s).InOrder) (ok : ResendOk c s e) (outcome : Outcome c s e p) : p.InOrder := by
  cases outcome with
  | quiet => exact h
  | emptied => exact h.empty
  | unsent report => exact h.submit _
  | refused report => exact h.submit _
  | queued report => exact h.enqueue rfl
  | direct report _ _ _ empty => exact Pipe.InOrder.direct (r := entry c s (submission c s report)) h rfl empty
  | first report _ _ _ _ empty =>
    have queued := Pipe.InOrder.enqueue (r := submission c s report) h rfl
    exact Pipe.InOrder.take queued (by simp [pipe, empty]) takenEntry_sorted fun n hn => keyboards_takenEntry hn
  | taken report rest _ queue => exact h.take queue takenEntry_sorted fun n hn => keyboards_takenEntry hn
  | resent report due kbRpt sent =>
    exact Pipe.InOrder.resend (r := entry c s report) h kbRpt fun typed => ok due report kbRpt typed sent

/-- The log only grows. -/
theorem outcome_prefix (outcome : Outcome c s e p) : ∃ more, p.handed = s.handed ++ more := by
  cases outcome with
  | quiet => exact ⟨[], (List.append_nil _).symm⟩
  | emptied => exact ⟨[], (List.append_nil _).symm⟩
  | unsent => exact ⟨[], (List.append_nil _).symm⟩
  | refused => exact ⟨[], (List.append_nil _).symm⟩
  | queued => exact ⟨[], (List.append_nil _).symm⟩
  | direct => exact ⟨_, rfl⟩
  | first => exact ⟨_, rfl⟩
  | taken => exact ⟨_, rfl⟩
  | resent => exact ⟨_, rfl⟩

/-- Where a resend is due it is made. -/
theorem resends_pipe {k : Submission K} (due : resends c s e = true) (kbRpt : s.kbRpt = some k)
    (sent : transmits c k.report = true) :
    pipe c (step c s e) = { pipe c s with handed := s.handed ++ [entry c s k] } := by
  cases e with
  | task now =>
    simp only [resends, decide_eq_true_eq] at due
    obtain ⟨state, retry, interval, elapsed⟩ := due
    show pipe c (reportBufferTask c s now) = _
    unfold reportBufferTask
    rw [if_pos ⟨state, Or.inr retry, interval⟩, if_neg retry, if_pos elapsed, sendPending_some k now (by exact kbRpt),
      if_pos sent]
    rfl
  | _ => cases due

/-- A `kb_rpt` that is sent too late breaks the order. -/
theorem not_ordered_of_late (h : (pipe c s).InOrder) (late : ¬ ResendOk c s e) :
    ¬ (pipe c (step c s e)).Ordered := by
  unfold ResendOk at late
  push Not at late
  obtain ⟨due, k, kbRpt, typed, sent, stale⟩ := late
  obtain ⟨n, hn, later⟩ := h.passed (Bool.of_not_eq_false stale) k kbRpt
  intro ordered
  rw [resends_pipe due kbRpt sent, Pipe.Ordered, keyboards_append, List.pairwise_append] at ordered
  have := ordered.2.2 n hn k.serial (mem_keyboards_entry.2 ⟨typed, rfl⟩)
  omega

theorem ordered_of_step (h : (pipe c (step c s e)).Ordered) : (pipe c s).Ordered := by
  obtain ⟨more, log⟩ := outcome_prefix (step_outcome e)
  rw [Pipe.Ordered, log, keyboards_append, List.pairwise_append] at h
  exact h.1

/-! ## Every run -/

theorem init_inOrder [Inhabited K] (now : BitVec 32) : (pipe c (init c now : Driver K c.queueSize)).InOrder := by
  have queue : (pipe c (init c now : Driver K c.queueSize)).queue = [] :=
    Ring.contents_empty c.queueSize_pos (⟨0, false, .kb default⟩ : Submission K)
  constructor
  case ordered => exact List.Pairwise.nil
  case sorted =>
    rw [queue]
    exact List.Pairwise.nil
  case numbered =>
    rw [queue]
    exact fun _ hr => by cases hr
  case handed => exact fun _ hn => by cases hn
  case kept => exact fun _ hk => by cases hk
  case fresh => exact fun _ _ hk => by cases hk
  case passed => exact fun stale => by cases stale

/-- In every run the keyboard reports are handed over in the order of their submission if
and only if no `kb_rpt` is sent again after a report that went past the queue. -/
theorem keyboard_order_iff [Inhabited K] (c : DriverConfig) (now : BitVec 32) (inputs : List (Input K)) :
    (pipe c (inputs.foldl (step c) (init c now))).Ordered ↔ Along (step c) (ResendOk c) (init c now) inputs :=
  Along.iff_good (fun s => (pipe c s).InOrder) (fun s => (pipe c s).Ordered) (fun _ h => h.ordered)
    (fun _ e h ok => outcome_inOrder h ok (step_outcome e)) (fun _ _ => not_ordered_of_late) (fun _ _ => ordered_of_step)
    (init_inOrder now)

/-- A run where the queue has room for every report. -/
def HasRoom (c : DriverConfig) (s : Driver K c.queueSize) (_ : Input K) : Prop :=
  s.queue.contents.length + 1 < c.queueSize

instance (c : DriverConfig) (s : Driver K c.queueSize) (e : Input K) : Decidable (HasRoom c s e) :=
  inferInstanceAs (Decidable (_ < _))

/-- The default sizes, without NKRO. -/
def sixKeys : DriverConfig := ⟨512, by decide, 30, false, false⟩

/-- A queued report is sent, the next one goes past the queue, and then the first one is
sent again. -/
def overtaken : List (Input Nat) :=
  [.event 5 ⟨.connected, 0⟩, .sendKeyboard 10 0 false, .sendKeyboard 11 1 false, .task 15, .sendKeyboard 20 2 false,
    .task 30]

theorem keyboard_order_fails :
    ¬ ∀ inputs : List (Input Nat), Along (step sixKeys) (HasRoom sixKeys) (init sixKeys 0) inputs →
      (pipe sixKeys (inputs.foldl (step sixKeys) (init sixKeys 0))).Ordered := by
  intro h
  have := h overtaken (by decide)
  exact absurd this (by decide)

end Steps

end QmkFirmware.Bluetooth
