import QmkFirmware.Lib.Run
import QmkFirmware.Lib.Timer
import QmkFirmware.Deferred.Code

/-!
# The schedule

What deferred execution is for: an executor is scheduled under its token until it is
cancelled or its callback returns zero, with a time before which it does not run. The
table refines the schedule as long as a callback that cancels itself does not have its
entry taken over before it returns.
-/

namespace QmkFirmware.Deferred
open Lib

variable {n : Nat} {F A : Type}

/-- What is scheduled, and the time it is due, in milliseconds from the start -/
structure Scheduled (F A : Type) where
  callback : Option F
  cbArg : Option A
  due : Nat

/-- The executors under their tokens, the one whose callback runs and was not cancelled since, and for each
callback that started what was scheduled under its token, and when it started -/
structure Schedule (F A : Type) where
  scheduled : BitVec 8 → Option (Scheduled F A)
  running : Option (BitVec 8)
  started : List (Option (Scheduled F A) × Nat)

namespace Schedule

/-- An executor is due at another time. -/
def postpone (due : Nat) (e : Option (Scheduled F A)) : Option (Scheduled F A) := e.map fun e => { e with due := due }

def put (token : BitVec 8) (e : Option (Scheduled F A)) (s : Schedule F A) : Schedule F A :=
  { s with scheduled := Function.update s.scheduled token e }

/-- An event changes what it names, and nothing else. -/
def step (time : Nat) (s : Schedule F A) : Event F A → Answer n → Schedule F A
  | .defer delay callback cbArg, .token token =>
    if token = 0 then s else s.put token (some ⟨callback, cbArg, time + delay.toNat⟩)
  | .extend token delay, _ =>
    if delay = 0 then s else s.put token (postpone (time + delay.toNat) (s.scheduled token))
  | .cancel token, _ =>
    { s.put token none with running := if s.running = some token then none else s.running }
  | .returned delay, _ =>
    match s.running with
    | none => s
    | some token =>
      { s.put token (if delay = 0 then none else (s.scheduled token).map fun e => { e with due := e.due + delay.toNat }) with
        running := none }
  | _, _ => s

/-- A callback starts. -/
def start (time : Nat) (token : BitVec 8) (s : Schedule F A) : Schedule F A :=
  { s with running := some token, started := s.started ++ [(s.scheduled token, time)] }

/-- What the code answers is noted. -/
def note (time : Nat) (table : Fin n → Executor F A) (s : Schedule F A) : Answer n → Schedule F A
  | .starts i => s.start time (table i).token
  | _ => s

end Schedule

/-- The code and the schedule side by side, the time, and the time at which the scan began -/
structure World (n : Nat) (F A : Type) where
  state : State n F A
  schedule : Schedule F A
  time : Nat
  scanStart : Nat

namespace World

/-- Nothing is scheduled at the start. -/
def initial : World n F A := ⟨Deferred.initial, ⟨fun _ => none, none, []⟩, 0, 0⟩

/-- The time that delays count from: the time at which the scan began, as long as it runs -/
def base (x : World n F A) : Nat := if x.state.running.isSome then x.scanStart else x.time

def step (x : World n F A) (event : Event F A) : World n F A :=
  let (state, answer) := x.state.step (BitVec.ofNat 32 x.time) event
  { state := state
    schedule := (x.schedule.step x.time event answer).note x.time state.table answer
    time := match event with
      | .wait ms => x.time + ms
      | _ => x.time
    scanStart := if x.state.running.isSome then x.scanStart else x.time }

end World

/-- The conditions of a step: a delay reaches less than 2^31 ms beyond the time that delays count from, also
the one a callback returns, which is added to the time its executor is due; and a callback that was
cancelled while it ran finds its entry free when it returns. -/
def StepOk (x : World n F A) : Event F A → Prop
  | .defer delay _ _ => x.time + delay.toNat < x.base + 2 ^ 31
  | .extend _ delay => x.time + delay.toNat < x.base + 2 ^ 31
  | .returned delay =>
    match x.state.running, x.schedule.running with
    | some (_, i), none => (x.state.table i).token = 0
    | some _, some token => ∀ e ∈ x.schedule.scheduled token, e.due + delay.toNat < x.base + 2 ^ 31
    | none, _ => True
  | _ => True

/-- An entry holds an executor. -/
structure Holds (entry : Executor F A) (e : Scheduled F A) : Prop where
  callback : entry.callback = e.callback
  cbArg : entry.cbArg = e.cbArg
  triggerTime : entry.triggerTime = BitVec.ofNat 32 e.due

/-- The table holds what is scheduled. -/
structure Refines (table : Fin n → Executor F A) (scheduled : BitVec 8 → Option (Scheduled F A)) : Prop where
  distinct : ∀ i j, (table i).token = (table j).token → (table i).token ≠ 0 → i = j
  zero : scheduled 0 = none
  holds : ∀ i, (table i).token ≠ 0 → ∃ e, scheduled (table i).token = some e ∧ Holds (table i) e
  held : ∀ token e, scheduled token = some e → ∃ i, (table i).token = token

/-! ## The table -/

namespace Refines

variable {table : Fin n → Executor F A} {scheduled : BitVec 8 → Option (Scheduled F A)} {i : Fin n} {token : BitVec 8}
  {entry : Executor F A} {e : Scheduled F A}

/-- An entry gets an executor: a free one under a new token, or its own again. -/
theorem put (h : Refines table scheduled) (ne : token ≠ 0) (named : entry.token = token) (holds : Holds entry e)
    (place : (table i).token = 0 ∧ (∀ j, (table j).token ≠ token) ∨ (table i).token = token) :
    Refines (Function.update table i entry) (Function.update scheduled token (some e)) := by
  have others : ∀ j, j ≠ i → (table j).token ≠ token := by
    intro j other same
    obtain ⟨-, fresh⟩ | own := place
    · exact fresh j same
    · exact other (h.distinct j i (same.trans own.symm) (by rwa [same]))
  constructor
  · intro j k
    by_cases here : j = i
    · by_cases there : k = i
      · exact fun _ _ => here.trans there.symm
      · rw [here, Function.update_self, Function.update_of_ne there, named]
        exact fun same _ => absurd same.symm (others k there)
    · by_cases there : k = i
      · rw [there, Function.update_self, Function.update_of_ne here, named]
        exact fun same _ => absurd same (others j here)
      · rw [Function.update_of_ne here, Function.update_of_ne there]
        exact h.distinct j k
  · rw [Function.update_of_ne ne.symm]
    exact h.zero
  · intro j
    by_cases here : j = i
    · rw [here, Function.update_self, named, Function.update_self]
      exact fun _ => ⟨e, rfl, holds⟩
    · rw [Function.update_of_ne here, Function.update_of_ne (others j here)]
      exact h.holds j
  · intro other e'
    by_cases same : other = token
    · exact fun _ => ⟨i, by rw [Function.update_self, named, same]⟩
    · rw [Function.update_of_ne same]
      intro found
      obtain ⟨j, eq⟩ := h.held other e' found
      refine ⟨j, ?_⟩
      rw [Function.update_of_ne]
      · exact eq
      · rintro rfl
        obtain ⟨zero, -⟩ | own := place
        · rw [← eq, zero, h.zero] at found
          exact absurd found (by simp)
        · exact same (eq.symm.trans own)

/-- An entry is freed. -/
theorem free (h : Refines table scheduled) (ne : token ≠ 0) (own : (table i).token = token)
    (cleared : entry.token = 0) : Refines (Function.update table i entry) (Function.update scheduled token none) := by
  have others : ∀ j, j ≠ i → (table j).token ≠ token :=
    fun j other same => other (h.distinct j i (same.trans own.symm) (by rwa [same]))
  constructor
  · intro j k
    by_cases here : j = i
    · rw [here, Function.update_self, cleared]
      exact fun _ on => absurd rfl on
    · by_cases there : k = i
      · rw [there, Function.update_self, cleared]
        exact fun same on => absurd same on
      · rw [Function.update_of_ne here, Function.update_of_ne there]
        exact h.distinct j k
  · rw [Function.update_of_ne ne.symm]
    exact h.zero
  · intro j
    by_cases here : j = i
    · rw [here, Function.update_self, cleared]
      exact fun on => absurd rfl on
    · rw [Function.update_of_ne here, Function.update_of_ne (others j here)]
      exact h.holds j
  · intro other e'
    by_cases same : other = token
    · rw [same, Function.update_self]
      exact fun found => absurd found (by simp)
    · rw [Function.update_of_ne same]
      intro found
      obtain ⟨j, eq⟩ := h.held other e' found
      refine ⟨j, ?_⟩
      rw [Function.update_of_ne]
      · exact eq
      · rintro rfl
        exact same (eq.symm.trans own)

/-- A free entry stays free. -/
theorem still (h : Refines table scheduled) (free : (table i).token = 0) (cleared : entry.token = 0) :
    Refines (Function.update table i entry) scheduled := by
  have tokens : ∀ j, (Function.update table i entry j).token = (table j).token := by
    intro j
    by_cases here : j = i
    · rw [here, Function.update_self, cleared, free]
    · rw [Function.update_of_ne here]
  constructor
  · intro j k
    rw [tokens, tokens]
    exact h.distinct j k
  · exact h.zero
  · intro j on
    rw [tokens] at on ⊢
    rw [Function.update_of_ne]
    · exact h.holds j on
    · rintro rfl
      exact on free
  · intro token e found
    obtain ⟨j, eq⟩ := h.held token e found
    exact ⟨j, by rw [tokens, eq]⟩

end Refines

theorem tokenCanBeUsed_iff {table : Fin n → Executor F A} {token : BitVec 8} :
    tokenCanBeUsed table token = true ↔ token ≠ 0 ∧ ∀ i, (table i).token ≠ token := by
  unfold tokenCanBeUsed
  rw [Bool.and_eq_true, bne_iff_ne, decide_eq_true_iff]

/-- A token that is allocated is the current one, and it can be used. -/
theorem allocateFrom_used {table : Fin n → Executor F A} {first current : BitVec 8} {turns : Nat}
    (got : (allocateFrom table first turns current).2 ≠ 0) :
    (allocateFrom table first turns current).1 = (allocateFrom table first turns current).2 ∧
      tokenCanBeUsed table (allocateFrom table first turns current).2 = true := by
  induction turns generalizing current with
  | zero => exact absurd rfl got
  | succ turns ih =>
    unfold allocateFrom at got ⊢
    split at got
    next use =>
      rw [if_pos use]
      exact ⟨rfl, use⟩
    next taken =>
      rw [if_neg taken]
      split at got
      · exact absurd rfl got
      next more =>
        rw [if_neg more]
        exact ih got

/-! ## The functions -/

section

variable {s : State n F A} {delay timer now : BitVec 32} {callback : Option F} {cbArg : Option A} {token : BitVec 8}

/-- `defer_exec_advanced` refuses, or puts an executor with a new token into a free entry. -/
theorem deferExec_cases : (s.deferExec delay callback cbArg timer).1.running = s.running ∧
    ((s.deferExec delay callback cbArg timer).2 = 0 ∧ (s.deferExec delay callback cbArg timer).1.table = s.table ∨
      (s.deferExec delay callback cbArg timer).2 ≠ 0 ∧ ∃ i, (s.table i).token = 0 ∧
        (∀ j, (s.table j).token ≠ (s.deferExec delay callback cbArg timer).2) ∧
        (s.deferExec delay callback cbArg timer).1.table = Function.update s.table i
          ⟨(s.deferExec delay callback cbArg timer).2, timer + delay, callback, cbArg⟩) := by
  unfold State.deferExec
  split
  next => exact ⟨rfl, .inl ⟨rfl, rfl⟩⟩
  next =>
    split
    next => exact ⟨rfl, .inl ⟨rfl, rfl⟩⟩
    next i found =>
      have free : (s.table i).token = 0 := by simpa using List.find?_some found
      unfold State.allocateToken
      dsimp only
      split
      next => exact ⟨rfl, .inl ⟨rfl, rfl⟩⟩
      next got =>
        obtain ⟨current, use⟩ := allocateFrom_used got
        obtain ⟨ne, fresh⟩ := tokenCanBeUsed_iff.mp use
        rw [← current] at ne fresh
        exact ⟨rfl, .inr ⟨ne, i, free, fresh, rfl⟩⟩

theorem find_cases : (∃ i, s.find token = some i ∧ (s.table i).token = token) ∨
    s.find token = none ∧ ∀ i, (s.table i).token ≠ token := by
  cases found : s.find token with
  | some i =>
    have eq := List.find?_some found
    exact .inl ⟨i, rfl, by simpa using eq⟩
  | none =>
    have none := List.find?_eq_none.mp found
    exact .inr ⟨rfl, fun i same => none i (List.mem_finRange i) (by simpa using same)⟩

/-- `extend_deferred_exec_advanced` changes the time of the token's entry. -/
theorem extendDeferredExec_cases : (s.extendDeferredExec token delay timer).1.running = s.running ∧
    ((delay = 0 ∨ token = 0 ∨ ∀ i, (s.table i).token ≠ token) ∧
        (s.extendDeferredExec token delay timer).1.table = s.table ∨
      delay ≠ 0 ∧ token ≠ 0 ∧ ∃ i, (s.table i).token = token ∧ (s.extendDeferredExec token delay timer).1.table =
        Function.update s.table i { s.table i with triggerTime := timer + delay }) := by
  unfold State.extendDeferredExec
  split
  next refused =>
    refine ⟨rfl, .inl ⟨?_, rfl⟩⟩
    obtain rfl | zero | zero := refused
    · exact .inr (.inr fun i => i.elim0)
    · exact .inl zero
    · exact .inr (.inl zero)
  next valid =>
    rw [not_or, not_or] at valid
    obtain ⟨i, found, named⟩ | ⟨found, none⟩ := @find_cases n F A s token
    · rw [found]
      exact ⟨rfl, .inr ⟨valid.2.1, valid.2.2, i, named, rfl⟩⟩
    · rw [found]
      exact ⟨rfl, .inl ⟨.inr (.inr none), rfl⟩⟩

/-- `cancel_deferred_exec_advanced` frees the token's entry. -/
theorem cancelDeferredExec_cases : (s.cancelDeferredExec token).1.running = s.running ∧
    ((token = 0 ∨ ∀ i, (s.table i).token ≠ token) ∧ (s.cancelDeferredExec token).1.table = s.table ∨
      token ≠ 0 ∧ ∃ i, (s.table i).token = token ∧
        (s.cancelDeferredExec token).1.table = Function.update s.table i .clear) := by
  unfold State.cancelDeferredExec
  split
  next refused =>
    refine ⟨rfl, .inl ⟨?_, rfl⟩⟩
    obtain rfl | zero := refused
    · exact .inr fun i => i.elim0
    · exact .inl zero
  next valid =>
    rw [not_or] at valid
    obtain ⟨i, found, named⟩ | ⟨found, none⟩ := @find_cases n F A s token
    · rw [found]
      exact ⟨rfl, .inr ⟨valid.2, i, named, rfl⟩⟩
    · rw [found]
      exact ⟨rfl, .inl ⟨.inr none, rfl⟩⟩

/-- The scan stops at an executor whose time has come. -/
theorem scan_cases {index : Nat} : (s.scan now index).table = s.table ∧
    ((s.scan now index).running = none ∨ ∃ i, (s.scan now index).running = some (now, i) ∧ (s.table i).token ≠ 0 ∧
      ((s.table i).triggerTime - now).toInt ≤ 0) := by
  refine ⟨rfl, ?_⟩
  unfold State.scan
  dsimp only
  cases found : (List.finRange n).find? fun i : Fin n =>
      decide (index ≤ i.val) && (s.table i).token != 0 && decide (((s.table i).triggerTime - now).toInt ≤ 0) with
  | none => exact .inl rfl
  | some i =>
    have due := List.find?_some found
    simp only [Bool.and_eq_true, bne_iff_ne, decide_eq_true_iff] at due
    exact .inr ⟨i, rfl, due.1.2, due.2⟩

end

/-! ## Runs -/

/-- The invariant -/
structure Good (x : World n F A) : Prop where
  refines : Refines x.state.table x.schedule.scheduled
  near : ∀ token e, x.schedule.scheduled token = some e → e.due < x.base + 2 ^ 31
  started : ∀ r ∈ x.schedule.started, ∃ e, r.1 = some e ∧ e.due ≤ r.2
  idle : x.state.running = none → x.schedule.running = none
  scan : ∀ now i, x.state.running = some (now, i) → now = BitVec.ofNat 32 x.scanStart ∧ x.scanStart ≤ x.time ∧
    ∀ token, x.schedule.running = some token → (x.state.table i).token = token ∧ token ≠ 0

theorem good_initial : Good (World.initial : World n F A) where
  refines := ⟨fun _ _ _ on => absurd rfl on, rfl, fun _ on => absurd rfl on, fun _ _ found => absurd found (by simp [World.initial])⟩
  near _ _ found := absurd found (by simp [World.initial])
  started _ mem := absurd mem List.not_mem_nil
  idle _ := rfl
  scan _ _ running := absurd running (by simp [World.initial, initial])

/-- **An executor is not run early**: what the scan finds due is due. -/
theorem due_of_not_pos {due start : Nat} (near : due < start + 2 ^ 31)
    (found : (BitVec.ofNat 32 due - BitVec.ofNat 32 start).toInt ≤ 0) : due ≤ start := by
  by_contra early
  have pos := elapsed_pos (w := 32) (not_le.mp early) (by omega)
  omega

/-- The scan goes on. -/
theorem Good.scanned {s : State n F A} {schedule : Schedule F A} {time start index : Nat}
    (refines : Refines s.table schedule.scheduled)
    (near : ∀ token e, schedule.scheduled token = some e → e.due < start + 2 ^ 31)
    (started : ∀ r ∈ schedule.started, ∃ e, r.1 = some e ∧ e.due ≤ r.2) (idle : schedule.running = none)
    (le : start ≤ time) :
    Good (⟨s.scan (BitVec.ofNat 32 start) index,
      schedule.note time (s.scan (BitVec.ofNat 32 start) index).table (s.scan (BitVec.ofNat 32 start) index).starts,
      time, start⟩ : World n F A) := by
  obtain ⟨table, stops | ⟨i, stops, on, due⟩⟩ := @scan_cases n F A s (BitVec.ofNat 32 start) index
  · have answer : (s.scan (BitVec.ofNat 32 start) index).starts = .nothing := by
      unfold State.starts
      rw [stops]
    rw [answer, table]
    refine ⟨refines, fun token e found => ?_, started, fun _ => idle, fun now i running => ?_⟩
    · have bound := near token e found
      unfold World.base
      rw [stops, if_neg (by simp)]
      dsimp only
      omega
    · exact absurd (stops.symm.trans running) (by simp)
  · have answer : (s.scan (BitVec.ofNat 32 start) index).starts = .starts i := by
      unfold State.starts
      rw [stops]
    obtain ⟨e, found, holds⟩ := refines.holds i on
    rw [answer, table]
    refine ⟨refines, fun token e' found' => ?_, fun r mem => ?_, fun none => ?_, fun now j running => ?_⟩
    · unfold World.base
      rw [stops, if_pos (by simp)]
      exact near token e' found'
    · obtain old | new := List.mem_append.mp mem
      · exact started r old
      · rw [List.mem_singleton.mp new]
        rw [holds.triggerTime] at due
        exact ⟨e, found, (due_of_not_pos (near _ e found) due).trans le⟩
    · exact absurd (stops.symm.trans none) (by simp)
    · obtain ⟨rfl, rfl⟩ := Prod.mk.inj (Option.some.inj (stops.symm.trans running))
      exact ⟨rfl, le, fun token same => ⟨Option.some.inj same, Option.some.inj same ▸ on⟩⟩

/-- A call that does not scan: the table and the schedule change alike. -/
theorem Good.called {x y : World n F A} (h : Good x) (refines : Refines y.state.table y.schedule.scheduled)
    (near : ∀ token e, y.schedule.scheduled token = some e → e.due < x.base + 2 ^ 31)
    (running : y.state.running = x.state.running) (le : x.time ≤ y.time)
    (scanStart : y.scanStart = if x.state.running.isSome then x.scanStart else x.time)
    (started : y.schedule.started = x.schedule.started)
    (still : ∀ token, y.schedule.running = some token → x.schedule.running = some token ∧
      ∀ i, (x.state.table i).token = token → (y.state.table i).token = token) : Good y := by
  refine ⟨refines, fun token e found => ?_, started ▸ h.started, fun none => ?_, fun now i on => ?_⟩
  · refine (near token e found).trans_le (Nat.add_le_add_right ?_ _)
    unfold World.base
    rw [running, scanStart]
    split
    · exact le_refl _
    · exact le
  · rw [running] at none
    by_contra some
    obtain ⟨token, eq⟩ := Option.ne_none_iff_exists'.mp some
    have before := (still token eq).1
    rw [h.idle none] at before
    exact absurd before (by simp)
  · rw [running] at on
    rw [scanStart, on, Option.isSome_some, if_pos rfl]
    obtain ⟨eq, before, own⟩ := h.scan now i on
    refine ⟨eq, before.trans le, fun token some => ?_⟩
    obtain ⟨some', same⟩ := still token some
    exact ⟨same i (own token some').1, (own token some').2⟩

theorem ofNat_add_delay (time : Nat) (delay : BitVec 32) :
    BitVec.ofNat 32 time + delay = BitVec.ofNat 32 (time + delay.toNat) := by
  rw [BitVec.ofNat_add, BitVec.ofNat_toNat, BitVec.setWidth_eq]

theorem Good.defer {x : World n F A} (h : Good x) {delay : BitVec 32} {callback : Option F} {cbArg : Option A}
    (ok : x.time + delay.toNat < x.base + 2 ^ 31) : Good (x.step (.defer delay callback cbArg)) := by
  obtain ⟨running, cases⟩ := @deferExec_cases n F A x.state delay (BitVec.ofNat 32 x.time) callback cbArg
  have schedule : (x.step (.defer delay callback cbArg)).schedule =
      if (x.state.deferExec delay callback cbArg (BitVec.ofNat 32 x.time)).2 = 0 then x.schedule
      else x.schedule.put (x.state.deferExec delay callback cbArg (BitVec.ofNat 32 x.time)).2
        (some ⟨callback, cbArg, x.time + delay.toNat⟩) := rfl
  obtain ⟨refused, table⟩ | ⟨ne, i, free, fresh, table⟩ := cases
  · rw [if_pos refused] at schedule
    refine h.called ?_ ?_ running (le_refl _) rfl ?_ ?_
    · rw [schedule]
      change Refines (x.state.deferExec delay callback cbArg (BitVec.ofNat 32 x.time)).1.table _
      rw [table]
      exact h.refines
    · rw [schedule]
      exact h.near
    · rw [schedule]
    · intro token some
      rw [schedule] at some
      refine ⟨some, fun j => ?_⟩
      change _ → ((x.state.deferExec delay callback cbArg (BitVec.ofNat 32 x.time)).1.table j).token = token
      rw [table]
      exact id
  · rw [if_neg ne] at schedule
    refine h.called ?_ ?_ running (le_refl _) rfl ?_ ?_
    · rw [schedule]
      change Refines (x.state.deferExec delay callback cbArg (BitVec.ofNat 32 x.time)).1.table _
      rw [table]
      exact h.refines.put ne rfl ⟨rfl, rfl, ofNat_add_delay _ _⟩ (.inl ⟨free, fresh⟩)
    · rw [schedule]
      intro token e found
      by_cases same : token = (x.state.deferExec delay callback cbArg (BitVec.ofNat 32 x.time)).2
      · rw [same] at found
        unfold Schedule.put at found
        dsimp only at found
        rw [Function.update_self] at found
        rw [← Option.some.inj found]
        exact ok
      · unfold Schedule.put at found
        dsimp only at found
        rw [Function.update_of_ne same] at found
        exact h.near token e found
    · rw [schedule]
      rfl
    · intro token some
      rw [schedule] at some
      refine ⟨some, fun j own => ?_⟩
      change ((x.state.deferExec delay callback cbArg (BitVec.ofNat 32 x.time)).1.table j).token = token
      rw [table, Function.update_of_ne]
      · exact own
      · rintro rfl
        cases on : x.state.running with
        | none => exact absurd (some.symm.trans (h.idle on)) (by simp)
        | some scan => exact ((h.scan scan.1 scan.2 on).2.2 token some).2 (own.symm.trans free)

/-- Nothing is scheduled under a token that no entry has. -/
theorem Refines.scheduled_none {table : Fin n → Executor F A} {scheduled : BitVec 8 → Option (Scheduled F A)}
    {token : BitVec 8} (h : Refines table scheduled) (none : token = 0 ∨ ∀ i, (table i).token ≠ token) :
    scheduled token = Option.none := by
  obtain rfl | none := none
  · exact h.zero
  · by_contra some
    obtain ⟨e, found⟩ := Option.ne_none_iff_exists'.mp some
    obtain ⟨i, eq⟩ := h.held token e found
    exact none i eq

theorem Good.extend {x : World n F A} (h : Good x) {token : BitVec 8} {delay : BitVec 32}
    (ok : x.time + delay.toNat < x.base + 2 ^ 31) : Good (x.step (.extend token delay)) := by
  obtain ⟨running, cases⟩ := @extendDeferredExec_cases n F A x.state delay (BitVec.ofNat 32 x.time) token
  have schedule : (x.step (.extend token delay)).schedule = if delay = 0 then x.schedule
      else x.schedule.put token (Schedule.postpone (x.time + delay.toNat) (x.schedule.scheduled token)) := rfl
  obtain ⟨refused, table⟩ | ⟨ne, named, i, own, table⟩ := cases
  · have same : (x.step (.extend token delay)).schedule = x.schedule := by
      rw [schedule]
      split
      · rfl
      next positive =>
        have none := h.refines.scheduled_none (refused.resolve_left positive)
        rw [none]
        change x.schedule.put token Option.none = x.schedule
        unfold Schedule.put
        rw [← none, Function.update_eq_self]
    refine h.called ?_ ?_ running (le_refl _) rfl ?_ ?_
    · rw [same]
      change Refines (x.state.extendDeferredExec token delay (BitVec.ofNat 32 x.time)).1.table _
      rw [table]
      exact h.refines
    · rw [same]
      exact h.near
    · rw [same]
    · intro other some
      rw [same] at some
      refine ⟨some, fun j => ?_⟩
      change _ → ((x.state.extendDeferredExec token delay (BitVec.ofNat 32 x.time)).1.table j).token = other
      rw [table]
      exact id
  · obtain ⟨e, found, holds⟩ := h.refines.holds i (own ▸ named)
    rw [own] at found
    rw [if_neg ne, found] at schedule
    refine h.called ?_ ?_ running (le_refl _) rfl ?_ ?_
    · rw [schedule]
      change Refines (x.state.extendDeferredExec token delay (BitVec.ofNat 32 x.time)).1.table _
      rw [table]
      exact h.refines.put named own ⟨holds.callback, holds.cbArg, ofNat_add_delay _ _⟩ (.inr own)
    · rw [schedule]
      intro other e' found'
      unfold Schedule.put at found'
      dsimp only at found'
      by_cases same : other = token
      · rw [same, Function.update_self] at found'
        rw [← Option.some.inj found']
        exact ok
      · rw [Function.update_of_ne same] at found'
        exact h.near other e' found'
    · rw [schedule]
      rfl
    · intro other some
      rw [schedule] at some
      refine ⟨some, fun j eq => ?_⟩
      change ((x.state.extendDeferredExec token delay (BitVec.ofNat 32 x.time)).1.table j).token = other
      rw [table]
      by_cases here : j = i
      · rw [here, Function.update_self]
        exact here ▸ eq
      · rw [Function.update_of_ne here]
        exact eq

theorem Good.cancel {x : World n F A} (h : Good x) {token : BitVec 8} : Good (x.step (.cancel token)) := by
  obtain ⟨running, cases⟩ := @cancelDeferredExec_cases n F A x.state token
  have schedule : (x.step (.cancel token)).schedule =
      { x.schedule.put token none with
        running := if x.schedule.running = some token then none else x.schedule.running } := rfl
  have near : ∀ other e, (x.step (.cancel token)).schedule.scheduled other = some e → e.due < x.base + 2 ^ 31 := by
    rw [schedule]
    intro other e found
    unfold Schedule.put at found
    dsimp only at found
    by_cases same : other = token
    · rw [same, Function.update_self] at found
      exact absurd found (by simp)
    · rw [Function.update_of_ne same] at found
      exact h.near other e found
  have runs : ∀ other, (x.step (.cancel token)).schedule.running = some other →
      x.schedule.running = some other ∧ other ≠ token := by
    rw [schedule]
    intro other some
    dsimp only at some
    split at some
    · exact absurd some (by simp)
    next different => exact ⟨some, fun same => different (same ▸ some)⟩
  obtain ⟨refused, table⟩ | ⟨ne, i, own, table⟩ := cases
  · refine h.called ?_ near running (le_refl _) rfl (by rw [schedule]; rfl) fun other some => ⟨(runs other some).1, fun j => ?_⟩
    · rw [schedule]
      change Refines (x.state.cancelDeferredExec token).1.table (Function.update x.schedule.scheduled token none)
      rw [table, ← h.refines.scheduled_none refused, Function.update_eq_self]
      exact h.refines
    · change _ → ((x.state.cancelDeferredExec token).1.table j).token = other
      rw [table]
      exact id
  · refine h.called ?_ near running (le_refl _) rfl (by rw [schedule]; rfl) fun other some => ⟨(runs other some).1, fun j eq => ?_⟩
    · rw [schedule]
      change Refines (x.state.cancelDeferredExec token).1.table (Function.update x.schedule.scheduled token none)
      rw [table]
      exact h.refines.free ne own rfl
    · change ((x.state.cancelDeferredExec token).1.table j).token = other
      rw [table, Function.update_of_ne]
      · exact eq
      · rintro rfl
        exact (runs other some).2 (eq.symm.trans own)

theorem Good.task {x : World n F A} (h : Good x) : Good (x.step .task) := by
  cases on : x.state.running with
  | some scan =>
    have step : x.step .task = { x with scanStart := if x.state.running.isSome then x.scanStart else x.time } := by
      unfold World.step State.step
      rw [on]
      rfl
    rw [step]
    exact h.called h.refines h.near rfl (le_refl _) rfl rfl fun token some => ⟨some, fun _ => id⟩
  | none =>
    have near : ∀ token e, x.schedule.scheduled token = some e → e.due < x.time + 2 ^ 31 := by
      have bound := h.near
      unfold World.base at bound
      rwa [on] at bound
    by_cases later : 0 < (BitVec.ofNat 32 x.time - x.state.lastExecutionTime).toInt
    · have scanned := @Good.scanned n F A { x.state with lastExecutionTime := BitVec.ofNat 32 x.time } x.schedule x.time
        x.time 0 h.refines near h.started (h.idle on) (le_refl _)
      have step : x.step .task =
          ⟨State.scan (BitVec.ofNat 32 x.time) 0 { x.state with lastExecutionTime := BitVec.ofNat 32 x.time },
            x.schedule.note x.time
              (State.scan (BitVec.ofNat 32 x.time) 0 { x.state with lastExecutionTime := BitVec.ofNat 32 x.time }).table
              (State.scan (BitVec.ofNat 32 x.time) 0 { x.state with lastExecutionTime := BitVec.ofNat 32 x.time }).starts,
            x.time, x.time⟩ := by
        unfold World.step State.step State.deferredExecTask
        rw [on]
        simp only [later, if_true]
        rfl
      rw [step]
      exact scanned
    · have step : x.step .task = { x with scanStart := x.time } := by
        unfold World.step State.step State.deferredExecTask State.starts
        rw [on]
        simp only [later, if_false, on]
        rfl
      rw [step]
      exact h.called h.refines h.near rfl (le_refl _) (by rw [on]; rfl) rfl fun token some => ⟨some, fun _ => id⟩

/-- What a callback leaves in its entry when it returns -/
def returnedEntry (delay : BitVec 32) (entry : Executor F A) : Executor F A :=
  if 0 < delay then { entry with triggerTime := entry.triggerTime + delay } else .clear

/-- The return of a callback, with what it changes in the table and in the schedule -/
theorem Good.requeued {x : World n F A} (h : Good x) {delay now : BitVec 32} {i : Fin n} {schedule : Schedule F A}
    (on : x.state.running = some (now, i)) (schedule_eq : x.schedule.step x.time (.returned delay) (.nothing : Answer n) = schedule)
    (refines : Refines (Function.update x.state.table i (returnedEntry delay (x.state.table i))) schedule.scheduled)
    (near : ∀ token e, schedule.scheduled token = some e → e.due < x.base + 2 ^ 31)
    (started : schedule.started = x.schedule.started) (idle : schedule.running = none) :
    Good (x.step (.returned delay)) := by
  obtain ⟨rfl, le, -⟩ := h.scan now i on
  have base : x.base = x.scanStart := by
    unfold World.base
    rw [on, Option.isSome_some, if_pos rfl]
  have scanned := @Good.scanned n F A
    { x.state with table := Function.update x.state.table i (returnedEntry delay (x.state.table i)) } schedule x.time
    x.scanStart (i + 1) refines (base ▸ near) (started ▸ h.started) idle le
  have step : x.step (.returned delay) =
      ⟨State.scan (BitVec.ofNat 32 x.scanStart) (i + 1)
          { x.state with table := Function.update x.state.table i (returnedEntry delay (x.state.table i)) },
        schedule.note x.time
          (State.scan (BitVec.ofNat 32 x.scanStart) (i + 1)
            { x.state with table := Function.update x.state.table i (returnedEntry delay (x.state.table i)) }).table
          (State.scan (BitVec.ofNat 32 x.scanStart) (i + 1)
            { x.state with table := Function.update x.state.table i (returnedEntry delay (x.state.table i)) }).starts,
        x.time, x.scanStart⟩ := by
    rw [← schedule_eq]
    unfold World.step State.step
    rw [on]
    rfl
  rw [step]
  exact scanned

theorem returnedEntry_zero {entry : Executor F A} : returnedEntry 0 entry = .clear := by
  unfold returnedEntry
  apply if_neg
  decide

theorem returnedEntry_pos {delay : BitVec 32} {entry : Executor F A} (positive : delay ≠ 0) :
    returnedEntry delay entry = { entry with triggerTime := entry.triggerTime + delay } := by
  unfold returnedEntry
  apply if_pos
  rw [BitVec.lt_def]
  exact Nat.pos_of_ne_zero fun zero => positive (BitVec.eq_of_toNat_eq zero)

theorem Good.returned {x : World n F A} (h : Good x) {delay : BitVec 32} (ok : StepOk x (.returned delay)) :
    Good (x.step (.returned delay)) := by
  cases on : x.state.running with
  | none =>
    have step : x.step (.returned delay) = { x with scanStart := if x.state.running.isSome then x.scanStart else x.time } := by
      unfold World.step State.step Schedule.step Schedule.note
      rw [on, h.idle on]
    rw [step]
    exact h.called h.refines h.near rfl (le_refl _) rfl rfl fun token some => ⟨some, fun _ => id⟩
  | some scan =>
    obtain ⟨now, i⟩ := scan
    unfold StepOk at ok
    rw [on] at ok
    cases runs : x.schedule.running with
    | none =>
      rw [runs] at ok
      dsimp only at ok
      have schedule : x.schedule.step x.time (.returned delay) (.nothing : Answer n) = x.schedule := by
        unfold Schedule.step
        rw [runs]
      refine h.requeued on schedule (h.refines.still ok ?_) h.near rfl runs
      by_cases zero : delay = 0
      · rw [zero, returnedEntry_zero]
        rfl
      · rw [returnedEntry_pos zero]
        exact ok
    | some token =>
      rw [runs] at ok
      dsimp only at ok
      obtain ⟨-, -, own⟩ := h.scan now i on
      obtain ⟨own, ne⟩ := own token runs
      obtain ⟨e, found, holds⟩ := h.refines.holds i (own ▸ ne)
      rw [own] at found
      by_cases zero : delay = 0
      · -- the executor ends
        refine @Good.requeued n F A x h delay now i { x.schedule.put token none with running := none } on ?_ ?_ ?_ rfl rfl
        · unfold Schedule.step
          rw [runs]
          dsimp only
          rw [if_pos zero]
        · rw [zero, returnedEntry_zero]
          exact h.refines.free ne own rfl
        · intro other e' found'
          unfold Schedule.put at found'
          dsimp only at found'
          by_cases same : other = token
          · rw [same, Function.update_self] at found'
            exact absurd found' (by simp)
          · rw [Function.update_of_ne same] at found'
            exact h.near other e' found'
      · -- the executor is queued again
        refine @Good.requeued n F A x h delay now i
          { x.schedule.put token (some { e with due := e.due + delay.toNat }) with running := none } on ?_ ?_ ?_ rfl rfl
        · unfold Schedule.step
          rw [runs]
          dsimp only
          rw [if_neg zero, found]
          rfl
        · rw [returnedEntry_pos zero]
          refine h.refines.put ne own ⟨holds.callback, holds.cbArg, ?_⟩ (.inr own)
          dsimp only
          rw [holds.triggerTime, ofNat_add_delay]
        · intro other e' found'
          unfold Schedule.put at found'
          dsimp only at found'
          by_cases same : other = token
          · rw [same, Function.update_self] at found'
            rw [← Option.some.inj found']
            exact ok e found
          · rw [Function.update_of_ne same] at found'
            exact h.near other e' found'

theorem Good.step {x : World n F A} (h : Good x) {event : Event F A} (ok : StepOk x event) : Good (x.step event) := by
  cases event with
  | wait ms => exact h.called h.refines h.near rfl (Nat.le_add_right _ _) rfl rfl fun token some => ⟨some, fun _ => id⟩
  | defer delay callback cbArg => exact h.defer ok
  | extend token delay => exact h.extend ok
  | cancel token => exact h.cancel
  | elsewhere token => exact h.called h.refines h.near rfl (le_refl _) rfl rfl fun token some => ⟨some, fun _ => id⟩
  | task => exact h.task
  | returned delay => exact h.returned ok

/-- **Deferred executors are neither lost nor mis-cancelled, in a run in which no callback that cancelled
itself finds another executor in its entry.** The table holds what is scheduled, each executor under its own
token, and a callback starts only for what is scheduled and due. -/
theorem executors_scheduled {events : List (Event F A)} (ok : Along World.step StepOk (World.initial : World n F A) events) :
    let x := events.foldl World.step (World.initial : World n F A)
    Refines x.state.table x.schedule.scheduled ∧ ∀ r ∈ x.schedule.started, ∃ e, r.1 = some e ∧ e.due ≤ r.2 := by
  have good := ok.invariant Good (fun _ _ h ok => h.step ok) good_initial
  exact ⟨good.refines, good.started⟩

/-- An executor runs once, returns a delay, runs again and ends. -/
theorem executor_repeats :
    let x := [.defer 10 (some 1) none, .wait 10, .task, .returned 5, .wait 5, .task, .returned 0].foldl World.step
      (World.initial : World 8 Nat Nat)
    Refines x.state.table x.schedule.scheduled ∧ ∀ r ∈ x.schedule.started, ∃ e, r.1 = some e ∧ e.due ≤ r.2 := by
  have first : ∀ e ∈ some (⟨some 1, none, 10⟩ : Scheduled Nat Nat), e.due + 5 < 10 + 2 ^ 31 := by simp
  have second : ∀ e ∈ some (⟨some 1, none, 15⟩ : Scheduled Nat Nat), e.due + 0 < 15 + 2 ^ 31 := by simp
  exact executors_scheduled ⟨(by decide : 0 + 10 < 0 + 2 ^ 31), trivial, trivial, first, trivial, trivial, second, trivial⟩

/-- An executor cancels itself and defers another one, which gets its entry: the return of the first ends the other. -/
theorem other_executor_lost :
    let x := [.defer 10 (some 1) none, .wait 10, .task, .cancel 1, .defer 100 (some 2) none, .returned 0].foldl World.step
      (World.initial : World 8 Nat Nat)
    x.schedule.scheduled 2 = some ⟨some 2, none, 110⟩ ∧ ∀ i, (x.state.table i).token ≠ 2 :=
  ⟨rfl, by decide⟩

end QmkFirmware.Deferred
