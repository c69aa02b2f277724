import QmkFirmware.Lib.Run
import QmkFirmware.Secure.Code

/-!
# Unlocking

The lock is to open exactly if the keys that were pressed since the request are the sequence.
The progress starts at the first key only if the last attempt was not given up in its middle.
-/

namespace QmkFirmware.Secure
open Lib

/-- What happens. A key is pressed or released, `secure_lock` and `secure_request_unlock` are called
by keys or by other code, and time passes. -/
inductive Event where
  | lock | requestUnlock | activity
  | key (row col : UInt8) (pressed : Bool)
  | task
  | wait (ms : Nat)
  deriving DecidableEq

/-- The lock, and what is not in the code: the keys that were pressed since the request that started the
last pending period, and the time since then -/
structure World where
  state : State
  keys : List (UInt8 × UInt8)
  since : Nat

namespace World

def initial : World := ⟨.initial, [], 0⟩

def step (cfg : Config) (w : World) : Event → World
  | .lock => { w with state := w.state.lock }
  | .requestUnlock =>
    if w.state.secureStatus = .locked then ⟨w.state.requestUnlock, [], 0⟩ else { w with state := w.state.requestUnlock }
  | .activity => { w with state := w.state.activityEvent }
  | .key row col pressed =>
    { w with
      state := w.state.preprocessSecure cfg row col pressed
      keys := if w.state.secureStatus = .pending ∧ pressed then w.keys ++ [(row, col)] else w.keys }
  | .task => { w with state := w.state.task cfg }
  | .wait ms => { w with state := { w.state with timer := w.state.timer + UInt32.ofNat ms }, since := w.since + ms }

end World

/-- The condition of a step: a pending period starts with the first key of the sequence. -/
def StartsFresh (w : World) (event : Event) : Prop :=
  event = .requestUnlock → w.state.secureStatus = .locked → w.state.offset = 0

instance (w : World) (event : Event) : Decidable (StartsFresh w event) := inferInstanceAs (Decidable (_ → _ → _))

/-- The keys that are pressed -/
def presses : List Event → List (UInt8 × UInt8)
  | [] => []
  | .key row col true :: events => (row, col) :: presses events
  | _ :: events => presses events

/-- The time that passes -/
def duration : List Event → Nat
  | [] => 0
  | .wait ms :: events => ms + duration events
  | _ :: events => duration events

/-- While the lock is pending, the progress is that of the keys that were pressed. -/
structure Progress (cfg : Config) (w : World) : Prop where
  pending : w.state.secureStatus = .pending →
    w.keys = cfg.sequence.take w.state.offset.toNat ∧ w.state.offset.toNat < cfg.sequence.length
  clock : w.state.secureStatus = .pending → w.state.timer = w.state.unlockTime + UInt32.ofNat w.since
  unlocked : w.state.secureStatus = .unlocked → w.keys = cfg.sequence

section

variable {cfg : Config} {w : World} {row col : UInt8}

theorem length_pos : 0 < cfg.sequence.length := List.length_pos_of_ne_nil cfg.nonempty

/-- The last key of the sequence opens the lock. -/
theorem keypressEvent_last {s : State} (next : cfg.sequence[s.offset.toNat]? = some (row, col))
    (last : s.offset.toNat + 1 = cfg.sequence.length) :
    s.keypressEvent cfg row col = { s with offset := 0 }.unlock := by
  have length : s.offset + 1 = UInt8.ofNat cfg.sequence.length := by
    rw [← last, UInt8.ofNat_add, UInt8.ofNat_toNat]
    rfl
  unfold State.keypressEvent
  rw [if_pos next]
  exact if_pos length

/-- Another key of the sequence -/
theorem keypressEvent_more (small : cfg.sequence.length ≤ 256) {s : State}
    (next : cfg.sequence[s.offset.toNat]? = some (row, col)) (more : s.offset.toNat + 1 < cfg.sequence.length) :
    s.keypressEvent cfg row col = { s with offset := s.offset + 1 } ∧ (s.offset + 1).toNat = s.offset.toNat + 1 := by
  have succ : (s.offset + 1).toNat = s.offset.toNat + 1 := by
    rw [UInt8.toNat_add]
    exact Nat.mod_eq_of_lt (by change s.offset.toNat + 1 < 256; omega)
  have length : s.offset + 1 ≠ UInt8.ofNat cfg.sequence.length := by
    intro same
    have := congrArg UInt8.toNat same
    rw [succ, UInt8.toNat_ofNat'] at this
    omega
  unfold State.keypressEvent
  rw [if_pos next]
  exact ⟨if_neg length, succ⟩

/-- Any other key locks. -/
theorem keypressEvent_other {s : State} (other : cfg.sequence[s.offset.toNat]? ≠ some (row, col)) :
    s.keypressEvent cfg row col = { s with offset := 0 }.lock := if_neg other

/-- What `secure_task` does: nothing, or it locks. -/
theorem task_cases (s : State) : s.task cfg = s ∨ s.task cfg = s.lock := by
  unfold State.task
  dsimp only
  split_ifs <;> simp [State.lock]

theorem progress_initial : Progress cfg .initial := by
  constructor <;> intro on <;> cases on

theorem progress_lock : Progress cfg { w with state := w.state.lock } := by
  constructor <;> intro on <;> cases on

/-- A key while the lock is pending -/
theorem Progress.press (small : cfg.sequence.length ≤ 256) (h : Progress cfg w) (on : w.state.secureStatus = .pending) :
    Progress cfg (w.step cfg (.key row col true)) := by
  obtain ⟨keys, below⟩ := h.pending on
  unfold World.step State.preprocessSecure
  simp only [on, if_true, and_self]
  by_cases next : cfg.sequence[w.state.offset.toNat]? = some (row, col)
  · have grown : w.keys ++ [(row, col)] = cfg.sequence.take (w.state.offset.toNat + 1) := by
      rw [List.take_add_one, next, keys]
      rfl
    by_cases last : w.state.offset.toNat + 1 = cfg.sequence.length
    · rw [keypressEvent_last next last, grown, last, List.take_length]
      constructor
      · intro pending
        cases pending
      · intro pending
        cases pending
      · exact fun _ => rfl
    · obtain ⟨more, succ⟩ := keypressEvent_more small next (by omega)
      rw [more, grown, ← succ]
      constructor
      · intro _
        dsimp only
        exact ⟨rfl, by omega⟩
      · exact h.clock
      · intro unlocked
        dsimp only at unlocked
        rw [on] at unlocked
        cases unlocked
  · rw [keypressEvent_other next]
    constructor <;> intro on <;> cases on

theorem Progress.step (small : cfg.sequence.length ≤ 256) (h : Progress cfg w) {event : Event} (ok : StartsFresh w event) :
    Progress cfg (w.step cfg event) := by
  cases event with
  | lock => exact progress_lock
  | requestUnlock =>
    unfold World.step State.requestUnlock
    dsimp only
    split
    next locked =>
      have zero := ok rfl locked
      constructor
      · intro _
        dsimp only
        rw [zero]
        exact ⟨rfl, length_pos⟩
      · intro _
        exact (UInt32.add_zero _).symm
      · intro on
        cases on
    · exact h
  | activity =>
    unfold World.step State.activityEvent
    dsimp only
    split
    · exact ⟨h.pending, h.clock, h.unlocked⟩
    · exact h
  | key row col pressed =>
    cases pressed with
    | true =>
      by_cases on : w.state.secureStatus = .pending
      · exact h.press small on
      · unfold World.step State.preprocessSecure
        simp only [on, false_and, if_false]
        exact h
    | false =>
      unfold World.step State.preprocessSecure
      simp only [Bool.false_eq_true, and_false, if_false, ite_self]
      exact h
  | task =>
    unfold World.step
    rcases @task_cases cfg w.state with same | locked
    · dsimp only
      rw [same]
      exact h
    · dsimp only
      rw [locked]
      exact progress_lock
  | wait ms =>
    constructor
    · exact h.pending
    · intro on
      change w.state.timer + UInt32.ofNat ms = w.state.unlockTime + UInt32.ofNat (w.since + ms)
      rw [h.clock on, UInt32.ofNat_add, UInt32.add_assoc]
    · exact h.unlocked

/-! ## An attempt -/

theorem presses_cons (event : Event) (events : List Event) : presses (event :: events) = presses [event] ++ presses events := by
  cases event with
  | key row col pressed => cases pressed <;> rfl
  | _ => rfl

theorem duration_cons (event : Event) (events : List Event) :
    duration (event :: events) = duration [event] + duration events := by
  cases event <;> simp [duration]

/-- The time is not up. -/
def InTime (cfg : Config) (since : Nat) : Prop := cfg.unlockTimeout = 0 ∨ since < cfg.unlockTimeout

instance (since : Nat) : Decidable (InTime cfg since) := inferInstanceAs (Decidable (_ ∨ _))

/-- The next key of the sequence, where the keys so far are those of a pending period -/
theorem Progress.next (h : Progress cfg w) (on : w.state.secureStatus = .pending) {rest : List (UInt8 × UInt8)}
    (keys : w.keys ++ (row, col) :: rest = cfg.sequence) :
    cfg.sequence[w.state.offset.toNat]? = some (row, col) ∧ w.state.offset.toNat + 1 + rest.length = cfg.sequence.length := by
  obtain ⟨take, below⟩ := h.pending on
  have length : w.keys.length = w.state.offset.toNat := by
    rw [take, List.length_take]
    omega
  constructor
  · rw [← keys, ← length]
    simp
  · rw [← keys, List.length_append, List.length_cons, length]
    omega

/-- An event of an attempt that is not its last key -/
theorem Progress.attempt (small : cfg.sequence.length ≤ 256) (h : Progress cfg w) (on : w.state.secureStatus = .pending)
    {event : Event} (other : event ≠ .lock) (intime : InTime cfg w.since) {rest : List (UInt8 × UInt8)} (more : rest ≠ [])
    (keys : w.keys ++ (presses [event] ++ rest) = cfg.sequence) :
    let x := w.step cfg event
    x.state.secureStatus = .pending ∧ x.keys = w.keys ++ presses [event] ∧ x.since = w.since + duration [event] := by
  cases event with
  | lock => exact absurd rfl other
  | requestUnlock =>
    unfold World.step State.requestUnlock
    simp [on, presses, duration]
  | activity =>
    unfold World.step State.activityEvent
    simp [on, presses, duration]
  | key row col pressed =>
    cases pressed with
    | false =>
      unfold World.step State.preprocessSecure
      simp [on, presses, duration]
    | true =>
      have typed : w.keys ++ (row, col) :: rest = cfg.sequence := keys
      obtain ⟨next, length⟩ := h.next on typed
      have some := List.length_pos_of_ne_nil more
      obtain ⟨same, -⟩ := keypressEvent_more small next (by omega)
      unfold World.step State.preprocessSecure
      simp [on, same, presses, duration]
  | task =>
    have early : ¬ (cfg.unlockTimeout ≠ 0 ∧ w.state.secureStatus = .pending ∧
        cfg.unlockTimeout ≤ (w.state.timer - w.state.unlockTime).toNat) := by
      rintro ⟨timeout, -, late⟩
      have elapsed : (w.state.timer - w.state.unlockTime).toNat ≤ w.since := by
        rw [h.clock on, UInt32.add_comm, UInt32.add_sub_cancel, UInt32.toNat_ofNat']
        exact Nat.mod_le _ _
      rcases intime with off | intime
      · exact timeout off
      · omega
    unfold World.step State.task
    simp only [if_neg early]
    simp [on, presses, duration]
  | wait ms =>
    unfold World.step
    simp [on, presses, duration]

/-- An attempt before its last key -/
theorem Progress.attempts (small : cfg.sequence.length ≤ 256) (h : Progress cfg w) (on : w.state.secureStatus = .pending)
    {events : List Event} (others : ∀ event ∈ events, event ≠ .lock) (intime : InTime cfg (w.since + duration events))
    {rest : List (UInt8 × UInt8)} (more : rest ≠ []) (keys : w.keys ++ (presses events ++ rest) = cfg.sequence) :
    let x := events.foldl (World.step cfg) w
    Progress cfg x ∧ x.state.secureStatus = .pending ∧ x.keys ++ rest = cfg.sequence := by
  induction events generalizing w with
  | nil => exact ⟨h, on, keys⟩
  | cons event events ih =>
    rw [presses_cons, List.append_assoc] at keys
    rw [duration_cons] at intime
    have now : InTime cfg w.since := intime.imp_right fun late => by omega
    have left : presses events ++ rest ≠ [] := fun nil => more (List.append_eq_nil_iff.mp nil).2
    obtain ⟨pending, typed, since⟩ := h.attempt small on (others event List.mem_cons_self) now left keys
    apply ih
    · exact h.step small fun request locked => by rw [on] at locked; cases locked
    · exact pending
    · exact fun event mem => others event (List.mem_cons_of_mem _ mem)
    · rw [since, Nat.add_assoc]
      exact intime
    · rw [typed, List.append_assoc]
      exact keys

end

/-- **The lock opens for the sequence and for nothing else.** Where every pending period starts with the first key, the lock
is open only if exactly the keys of the sequence were pressed since the request, in order; and after a request exactly
these keys open it, whatever else happens before the last one but a call of `secure_lock`, if they are in time. -/
theorem unlocked_by_sequence {cfg : Config} (small : cfg.sequence.length ≤ 256) {events : List Event}
    (ok : Along (World.step cfg) StartsFresh .initial events) :
    let w := events.foldl (World.step cfg) .initial
    (w.state.secureStatus = .unlocked → w.keys = cfg.sequence) ∧
      ∀ (attempt : List Event) (row col : UInt8), w.state.secureStatus = .locked → StartsFresh w .requestUnlock →
        (∀ event ∈ attempt, event ≠ .lock) → presses attempt ++ [(row, col)] = cfg.sequence →
        InTime cfg (duration attempt) →
        ((Event.requestUnlock :: attempt ++ [Event.key row col true]).foldl (World.step cfg) w).state.secureStatus = .unlocked := by
  intro w
  have h : Progress cfg w := ok.invariant (Progress cfg) (fun _ _ h ok => h.step small ok) progress_initial
  refine ⟨h.unlocked, ?_⟩
  intro attempt row col locked fresh others keys intime
  have requested : w.step cfg .requestUnlock = ⟨w.state.requestUnlock, [], 0⟩ := if_pos locked
  have pending : (w.step cfg .requestUnlock).state.secureStatus = .pending := by
    rw [requested]
    unfold State.requestUnlock
    rw [if_pos locked]
  rw [List.cons_append, List.foldl_cons, List.foldl_append, List.foldl_cons, List.foldl_nil]
  obtain ⟨progress, on, typed⟩ := (h.step small fresh).attempts small pending others
    (by rw [requested, Nat.zero_add]; exact intime) (List.cons_ne_nil (row, col) []) (by rw [requested]; exact keys)
  obtain ⟨next, length⟩ := progress.next on typed
  generalize attempt.foldl (World.step cfg) (w.step cfg .requestUnlock) = x at *
  unfold World.step State.preprocessSecure
  simp only [on, if_true]
  rw [keypressEvent_last next length]
  rfl

/-- Two keys, with the default timeouts -/
def twoKeys : Config := ⟨[(0, 0), (0, 1)], 5000, 60000, List.cons_ne_nil _ _⟩

/-- The first key is pressed twice, and the sequence after that. -/
theorem unlocked_by_sequence_retry :
    let w := [Event.requestUnlock, .key 0 0 true, .key 0 0 true].foldl (World.step twoKeys) .initial
    ((Event.requestUnlock :: [.key 0 0 true, .wait 100, .task, .key 0 0 false] ++ [Event.key 0 1 true]).foldl (World.step twoKeys)
      w).state.secureStatus = .unlocked :=
  (@unlocked_by_sequence twoKeys (by decide) [.requestUnlock, .key 0 0 true, .key 0 0 true] (by decide)).2 [.key 0 0 true, .wait 100, .task, .key 0 0 false] 0 1 (by decide) (by decide) (by decide) (by decide) (by decide)

/-- The first key is pressed, the time runs out, and after a second request the other key alone opens the lock; had the
first one been pressed again it would have locked. -/
theorem half_unlocks :
    let w := [Event.requestUnlock, .key 0 0 true, .wait 5000, .task, .requestUnlock].foldl (World.step twoKeys) .initial
    ((w.step twoKeys (.key 0 1 true)).state.secureStatus = .unlocked ∧ (w.step twoKeys (.key 0 1 true)).keys = [(0, 1)]) ∧
      ([Event.key 0 0 true, .key 0 1 true].foldl (World.step twoKeys) w).state.secureStatus = .locked := by
  decide

end QmkFirmware.Secure
