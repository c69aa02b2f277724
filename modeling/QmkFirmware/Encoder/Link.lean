import QmkFirmware.Encoder.Turns
import QmkFirmware.Split.Code

/-!
# The clicks of the other half

The slave publishes the counters of its clicks with a checksum, and the master emits the
difference to its own counters: `encoder_handlers_master` and `encoder_handlers_slave` of
`transactions.c`.
-/

namespace QmkFirmware.Encoder
open Lib

/-! ## Counters and clicks -/

namespace State

variable {cfg : Config} {v : Nat → BitVec 8} {s t : State}

/-- The counters have been counted from `v` on. -/
def Counted (cfg : Config) (v : Nat → BitVec 8) (s : State) : Prop :=
  ∀ j, s.encoderValue j = v j + BitVec.ofInt 8 (s.net cfg j)

theorem Counted.congr (h : s.Counted cfg v) (values : t.encoderValue = s.encoderValue) (clicks : t.clicks = s.clicks) :
    t.Counted cfg v := by
  intro j
  have same : t.net cfg j = s.net cfg j := by
    unfold net
    rw [clicks]
  rw [values, same]
  exact h j

theorem Counted.up (h : s.Counted cfg v) (index : Nat) : (s.click cfg index 1 cfg.counterClockwise).Counted cfg v := by
  intro j
  rw [net_up]
  have here := h j
  by_cases same : index = j
  · subst same
    simp only [click, Function.update_self, if_true, here, BitVec.ofInt_add, BitVec.add_assoc]
    rfl
  · simp only [click, Function.update_of_ne (Ne.symm same), if_neg same, here, Int.add_zero]

theorem Counted.down (h : s.Counted cfg v) (index : Nat) : (s.click cfg index (-1) cfg.clockwise).Counted cfg v := by
  intro j
  rw [net_down]
  have here := h j
  by_cases same : index = j
  · subst same
    simp only [click, Function.update_self, if_true, here, Int.sub_eq_add_neg, BitVec.ofInt_add, BitVec.add_assoc]
    rfl
  · simp only [click, Function.update_of_ne (Ne.symm same), if_neg same, here, Int.sub_zero]

theorem Counted.update (h : s.Counted cfg v) (i : Nat) (state : BitVec 8) : (s.encoderUpdate cfg i state).2.Counted cfg v := by
  have added : (s.addStep i state).Counted cfg v := h.congr rfl rfl
  unfold encoderUpdate
  generalize s.addStep i state = t at added ⊢
  have reduced {x : State} (counted : x.Counted cfg v) : (x.reduce cfg i).Counted cfg v := counted.congr rfl rfl
  dsimp only
  split_ifs
  · exact reduced ((added.up _).down _)
  · exact reduced (added.down _)
  · exact reduced (added.up _)
  · exact reduced added

theorem Counted.readOne (pads : Nat → Pads) (x : Bool × State) (i : Nat) (h : x.2.Counted cfg v) :
    (State.readOne cfg pads x i).2.Counted cfg v := by
  obtain ⟨c, s⟩ := x
  change s.Counted cfg v at h
  have shifted : Counted cfg v
      { s with encoderState := Function.update s.encoderState i (s.encoderState i <<< 2 ||| (pads i).status) } := h.congr rfl rfl
  unfold State.readOne
  dsimp only
  split
  · exact (shifted.update i _).congr rfl rfl
  · exact h

theorem Counted.read (h : s.Counted cfg v) (pads : Nat → Pads) : (s.encoderRead cfg pads).2.Counted cfg v := by
  unfold encoderRead
  generalize hx : (false, s) = x
  have start : x.2.Counted cfg v := hx ▸ h
  clear hx
  induction List.range cfg.thisCount generalizing x with
  | nil => exact start
  | cons i more ih => exact ih _ (start.readOne pads x i)

theorem Counted.interrupt (h : s.Counted cfg v) (index : Nat) (pads : Pads) : (s.encoderInerruptRead index pads).Counted cfg v :=
  h.congr rfl rfl

/-- The `while` loops come to their end. -/
theorem follow_spec (index : Nat) (h : s.Counted cfg v) (delta : Int) :
    (s.follow cfg index delta.natAbs delta).Counted cfg v ∧
      ∀ j, (s.follow cfg index delta.natAbs delta).net cfg j = s.net cfg j + if index = j then delta else 0 := by
  generalize turns : delta.natAbs = n
  induction n generalizing delta s with
  | zero =>
    have none : delta = 0 := by omega
    subst none
    exact ⟨h, fun j => by simp [follow]⟩
  | succ n ih =>
    unfold follow
    by_cases up : 0 < delta
    · obtain ⟨counted, net⟩ := ih (h.up index) (delta - 1) (by omega)
      rw [if_pos up]
      refine ⟨counted, fun j => ?_⟩
      rw [net j, net_up]
      split_ifs <;> omega
    · have down : delta < 0 := by omega
      obtain ⟨counted, net⟩ := ih (h.down index) (delta + 1) (by omega)
      rw [if_neg up, if_pos down]
      refine ⟨counted, fun j => ?_⟩
      rw [net j, net_down]
      split_ifs <;> omega

/-- Every counter of the other half comes to what the slave has published. -/
theorem updateRaw_turns (slaveState : List (BitVec 8)) (h : s.Counted cfg v) (m : Nat) :
    ((List.range m).foldl (updateRawOne cfg slaveState) s).Counted cfg v ∧
      ∀ i, ((List.range m).foldl (updateRawOne cfg slaveState) s).net cfg (i + cfg.thatHand) =
        s.net cfg (i + cfg.thatHand) +
          if i < m then (slaveState.getD i 0 - s.encoderValue (i + cfg.thatHand)).toInt else 0 := by
  induction m with
  | zero => exact ⟨h, fun i => by simp⟩
  | succ m ih =>
    rw [List.range_succ, List.foldl_append, List.foldl_cons, List.foldl_nil]
    generalize (List.range m).foldl (updateRawOne cfg slaveState) s = t at ih ⊢
    obtain ⟨counted, net⟩ := ih
    have value : t.encoderValue (m + cfg.thatHand) = s.encoderValue (m + cfg.thatHand) := by
      rw [counted, h, net m]
      simp
    unfold updateRawOne
    dsimp only
    rw [value]
    obtain ⟨counted', net'⟩ := follow_spec (m + cfg.thatHand) counted (slaveState.getD m 0 - s.encoderValue (m + cfg.thatHand)).toInt
    refine ⟨counted', fun i => ?_⟩
    rw [net', net i]
    by_cases last : i = m
    · subst last
      simp
    · have apart : ¬ m + cfg.thatHand = i + cfg.thatHand := by omega
      have earlier : i < m + 1 ↔ i < m := by omega
      simp only [if_neg apart, earlier, Int.add_zero]

theorem encoderUpdateRaw_spec (slaveState : List (BitVec 8)) (h : s.Counted cfg v) :
    (s.encoderUpdateRaw cfg slaveState).Counted cfg v ∧
      ∀ i < cfg.thatCount, (s.encoderUpdateRaw cfg slaveState).net cfg (i + cfg.thatHand) =
        s.net cfg (i + cfg.thatHand) + (slaveState.getD i 0 - s.encoderValue (i + cfg.thatHand)).toInt := by
  obtain ⟨counted, net⟩ := @updateRaw_turns { cfg with shouldProcessEncoder := true } v s slaveState h cfg.thatCount
  refine ⟨counted, fun i here => (net i).trans ?_⟩
  rw [if_pos here]
  rfl

end State

/-! ## The two halves -/

/-- The encoders of the two halves, `FORCED_SYNC_THROTTLE_MS`, and `crc8`, which is a weak function -/
structure Halves where
  slave : Config
  master : Config
  sameHand : master.thatHand = slave.thisHand
  sameCount : master.thatCount = slave.thisCount
  forcedSyncThrottle : Nat
  crc8 : List (BitVec 8) → BitVec 8

/-- What the slave has published, with its checksum; the copy of it in the shared memory of the master, and `last_update` of
`encoder_handlers_master`. The last fields are not in the code: the net clicks of the slave in what it has published, and in
what it had published at the last read that succeeded. -/
structure Link where
  slave : State
  state : List (BitVec 8)
  checksum : BitVec 8
  master : State
  shmem : List (BitVec 8)
  lastUpdate : BitVec 32
  published : Nat → Int
  confirmed : Nat → Int

/-- What the slave does: it samples its encoders, or publishes its counters. The local array that it publishes has unused bytes
if the halves do not have the same number of encoders. -/
inductive SlaveEvent where
  | turn (e : Event)
  | publish (unused : List (BitVec 8))

/-- One call of `encoder_handlers_master`: whether the checksum is read, the time when it is looked at, what the slave does
before the counters are read, the bytes that a read which fails leaves behind, and the time when `last_update` is set -/
structure Poll where
  checksumRead : Bool
  elapsedAt : BitVec 32
  between : List SlaveEvent
  leftover : Option (List (BitVec 8))
  readAt : BitVec 32

namespace Link

variable (halves : Halves)

/-- Both halves have the same counters, which the slave has published; before it publishes for the first time they are zero, and
so is its shared memory. -/
def initial (pads pads' : Nat → Pads) (value : Nat → BitVec 8) (unused : List (BitVec 8)) (checksum : BitVec 8)
    (shmem : List (BitVec 8)) (lastUpdate : BitVec 32) : Link where
  slave := .init pads value
  state := (State.init pads value).encoderStateRaw halves.slave ++ unused
  checksum := checksum
  master := .init pads' value
  shmem := shmem
  lastUpdate := lastUpdate
  published _ := 0
  confirmed _ := 0

/-- `encoder_handlers_slave` -/
def handlersSlave (unused : List (BitVec 8)) (l : Link) : Link :=
  let encoderState := l.slave.encoderStateRaw halves.slave ++ unused
  { l with
    state := encoderState
    checksum := halves.crc8 encoderState
    published := fun i => l.slave.net halves.slave (i + halves.slave.thisHand) }

def slaveStep (l : Link) : SlaveEvent → Link
  | .turn (.read pads) => { l with slave := (l.slave.encoderRead halves.slave pads).2 }
  | .turn (.interrupt index pads) => { l with slave := l.slave.encoderInerruptRead index pads }
  | .publish unused => l.handlersSlave halves unused

/-- `timer_elapsed32(*last_update) >= FORCED_SYNC_THROTTLE_MS` -/
def Forced (now : BitVec 32) (l : Link) : Prop := halves.forcedSyncThrottle ≤ (now - l.lastUpdate).toNat

instance (now : BitVec 32) (l : Link) : Decidable (l.Forced halves now) := inferInstanceAs (Decidable (_ ≤ _))

/-- Whether `read_if_checksum_mismatch` reads the counters -/
def Reads (p : Poll) (l : Link) : Prop := l.Forced halves p.elapsedAt ∨ l.checksum ≠ halves.crc8 l.shmem

instance (p : Poll) (l : Link) : Decidable (l.Reads halves p) := inferInstanceAs (Decidable (_ ∨ _))

/-- The read has succeeded: `encoder_update_raw`. -/
def succeed (l : Link) : Link :=
  { l with master := l.master.encoderUpdateRaw halves.master l.shmem, confirmed := l.published }

/-- `encoder_handlers_master`, with `read_if_checksum_mismatch`; the loop of `transaction_handler_master` calls it again if it
fails. -/
def handlersMaster (p : Poll) (l : Link) : Bool × Link :=
  if p.checksumRead = false then (false, l)
  else
    let currChecksum := l.checksum
    if l.Reads halves p then
      let l := p.between.foldl (slaveStep halves) l
      match p.leftover with
      | some bytes => (false, { l with shmem := bytes })
      | none =>
        let l := { l with shmem := l.state }
        if currChecksum = halves.crc8 l.shmem then (true, { l with lastUpdate := p.readAt }.succeed halves) else (false, l)
    else (true, l.succeed halves)

end Link

/-- What happens: the slave does something, or the master polls. -/
inductive LinkEvent where
  | slave (e : SlaveEvent)
  | poll (p : Poll)

namespace Link

variable (halves : Halves)

def step (l : Link) : LinkEvent → Link
  | .slave e => l.slaveStep halves e
  | .poll p => (l.handlersMaster halves p).2

/-- Fewer than 128 net clicks lie between two reads that succeed. -/
def Few (l : Link) : LinkEvent → Prop
  | .slave _ => True
  | .poll p => (l.handlersMaster halves p).1 = true →
    ∀ i < halves.slave.thisCount, ((l.handlersMaster halves p).2.published i - l.confirmed i).natAbs < 128

/-- Where the counters are not read, because the copy has the checksum that the slave has published, the copy is what it has
published. -/
def Told (l : Link) : LinkEvent → Prop
  | .slave _ => True
  | .poll p => p.checksumRead = true → ¬ l.Reads halves p → ∀ i < halves.slave.thisCount, l.shmem.getD i 0 = l.state.getD i 0

/-- After a read that succeeds the master has emitted what the slave has published, and one that fails emits nothing. -/
def Right (l : Link) : LinkEvent → Prop
  | .slave e => (l.slaveStep halves e).master.clicks = l.master.clicks
  | .poll p =>
    if (l.handlersMaster halves p).1 then
      ∀ i < halves.slave.thisCount,
        (l.handlersMaster halves p).2.master.net halves.master (i + halves.master.thatHand) =
          (l.handlersMaster halves p).2.published i
    else (l.handlersMaster halves p).2.master.clicks = l.master.clicks

instance (l : Link) : (e : LinkEvent) → Decidable (l.Few halves e)
  | .slave _ => isTrue trivial
  | .poll _ => inferInstanceAs (Decidable (_ = true → ∀ i < halves.slave.thisCount, _ < 128))

instance (l : Link) : (e : LinkEvent) → Decidable (l.Told halves e)
  | .slave _ => isTrue trivial
  | .poll _ => inferInstanceAs (Decidable (_ → ¬ _ → ∀ i < halves.slave.thisCount, _ = _))

instance (l : Link) : (e : LinkEvent) → Decidable (l.Right halves e)
  | .slave _ => inferInstanceAs (Decidable (_ = _))
  | .poll p => inferInstanceAs (Decidable (if (l.handlersMaster halves p).1 then _ else _))

/-- What is kept: all counters have been counted from `v` on, the published ones included, and the master's by what was
published at the last read that succeeded. -/
structure Agrees (v : Nat → BitVec 8) (l : Link) : Prop where
  slave : l.slave.Counted halves.slave v
  master : l.master.Counted halves.master v
  state : ∀ i < halves.slave.thisCount, l.state.getD i 0 = v (i + halves.slave.thisHand) + BitVec.ofInt 8 (l.published i)
  confirmed : ∀ i < halves.slave.thisCount, l.master.net halves.master (i + halves.master.thatHand) = l.confirmed i

variable {halves} {v : Nat → BitVec 8} {l : Link}

theorem getD_encoderStateRaw {cfg : Config} {s : State} (unused : List (BitVec 8)) {i : Nat} (h : i < cfg.thisCount) :
    (s.encoderStateRaw cfg ++ unused).getD i 0 = s.encoderValue (i + cfg.thisHand) := by
  have bound : i < (s.encoderStateRaw cfg).length := by simpa [State.encoderStateRaw] using h
  rw [List.getD_eq_getElem?_getD, List.getElem?_append_left bound, List.getElem?_eq_getElem bound]
  simp [State.encoderStateRaw, Nat.add_comm]

/-- What the slave does leaves the master as it is. -/
theorem slaveStep_master (e : SlaveEvent) :
    (l.slaveStep halves e).master = l.master ∧ (l.slaveStep halves e).confirmed = l.confirmed ∧
      (l.slaveStep halves e).shmem = l.shmem := by
  cases e with
  | turn e => cases e <;> exact ⟨rfl, rfl, rfl⟩
  | publish unused => exact ⟨rfl, rfl, rfl⟩

theorem Agrees.slaveStep (agrees : l.Agrees halves v) (e : SlaveEvent) : (l.slaveStep halves e).Agrees halves v := by
  cases e with
  | turn e =>
    cases e with
    | read pads => exact ⟨agrees.slave.read pads, agrees.master, agrees.state, agrees.confirmed⟩
    | interrupt index pads => exact ⟨agrees.slave.interrupt index pads, agrees.master, agrees.state, agrees.confirmed⟩
  | publish unused =>
    refine ⟨agrees.slave, agrees.master, fun i here => ?_, agrees.confirmed⟩
    exact (getD_encoderStateRaw unused here).trans (agrees.slave _)

theorem Agrees.slaveSteps (agrees : l.Agrees halves v) (events : List SlaveEvent) :
    (events.foldl (Link.slaveStep halves) l).Agrees halves v ∧
      (events.foldl (Link.slaveStep halves) l).master = l.master ∧
      (events.foldl (Link.slaveStep halves) l).confirmed = l.confirmed := by
  induction events generalizing l with
  | nil => exact ⟨agrees, rfl, rfl⟩
  | cons e events ih =>
    obtain ⟨master, confirmed, -⟩ := @slaveStep_master halves l e
    obtain ⟨later, master', confirmed'⟩ := ih (agrees.slaveStep e)
    exact ⟨later, master'.trans master, confirmed'.trans confirmed⟩

/-- **A read that succeeds** brings the master to what was published. -/
theorem Agrees.succeed (agrees : l.Agrees halves v)
    (same : ∀ i < halves.slave.thisCount, l.shmem.getD i 0 = l.state.getD i 0)
    (few : ∀ i < halves.slave.thisCount, (l.published i - l.confirmed i).natAbs < 128) : (l.succeed halves).Agrees halves v := by
  obtain ⟨counted, net⟩ := State.encoderUpdateRaw_spec l.shmem agrees.master
  refine ⟨agrees.slave, counted, agrees.state, fun i here => ?_⟩
  show (l.master.encoderUpdateRaw halves.master l.shmem).net halves.master (i + halves.master.thatHand) = l.published i
  rw [net i (halves.sameCount ▸ here), same i here, agrees.state i here, agrees.master, agrees.confirmed i here, halves.sameHand]
  have bound := few i here
  have delta : v (i + halves.slave.thisHand) + BitVec.ofInt 8 (l.published i) -
      (v (i + halves.slave.thisHand) + BitVec.ofInt 8 (l.confirmed i)) = BitVec.ofInt 8 (l.published i - l.confirmed i) := by
    rw [Int.sub_eq_add_neg, BitVec.ofInt_add, BitVec.ofInt_neg]
    generalize BitVec.ofInt 8 (l.published i) = x
    generalize BitVec.ofInt 8 (l.confirmed i) = y
    rw [BitVec.sub_eq_add_neg]
    bv_omega
  rw [delta, toInt_ofInt ⟨by omega, by omega⟩]
  omega

/-- The slave publishes between the two transactions as it likes. -/
theorem Agrees.poll (agrees : l.Agrees halves v) (p : Poll) (few : l.Few halves (.poll p)) (told : l.Told halves (.poll p)) :
    (l.handlersMaster halves p).2.Agrees halves v ∧ l.Right halves (.poll p) := by
  unfold Few Told Right at *
  dsimp only at few told ⊢
  unfold handlersMaster at few ⊢
  cases read : p.checksumRead with
  | false => exact ⟨agrees, rfl⟩
  | true =>
    simp only [read, Bool.true_eq_false, if_false] at few ⊢
    by_cases reads : l.Reads halves p
    · rw [if_pos reads] at few ⊢
      obtain ⟨later, master, confirmed⟩ := agrees.slaveSteps p.between
      generalize p.between.foldl (Link.slaveStep halves) l = l' at later master confirmed few ⊢
      cases leftover : p.leftover with
      | some bytes =>
        refine ⟨⟨later.slave, later.master, later.state, later.confirmed⟩, ?_⟩
        simp [master]
      | none =>
        simp only [leftover] at few ⊢
        have copied : Agrees halves v { l' with shmem := l'.state } := ⟨later.slave, later.master, later.state, later.confirmed⟩
        split
        case isTrue matching =>
          rw [if_pos matching] at few
          have done : Agrees halves v (Link.succeed halves { l' with shmem := l'.state, lastUpdate := p.readAt }) := by
            refine Agrees.succeed ⟨later.slave, later.master, later.state, later.confirmed⟩ (fun _ _ => rfl) fun i here => ?_
            show (l'.published i - l'.confirmed i).natAbs < 128
            rw [confirmed]
            exact few rfl i here
          exact ⟨done, done.confirmed⟩
        case isFalse => exact ⟨copied, by simp [master]⟩
    · rw [if_neg reads] at few ⊢
      have done := agrees.succeed (told read reads) (few rfl)
      exact ⟨done, done.confirmed⟩

theorem agrees_initial (pads pads' : Nat → Pads) (value : Nat → BitVec 8) (unused : List (BitVec 8)) (checksum : BitVec 8)
    (shmem : List (BitVec 8)) (lastUpdate : BitVec 32) :
    (initial halves pads pads' value unused checksum shmem lastUpdate).Agrees halves value := by
  have zero (j : Nat) : value j = value j + BitVec.ofInt 8 0 := by simp
  refine ⟨fun j => zero j, fun j => zero j, fun i here => ?_, fun i _ => rfl⟩
  exact (getD_encoderStateRaw unused here).trans (zero _)

/-- **No click of the slave is lost or doubled.** -/
theorem clicks_conserved (pads pads' : Nat → Pads) (value : Nat → BitVec 8) (unused : List (BitVec 8)) (checksum : BitVec 8)
    (shmem : List (BitVec 8)) (lastUpdate : BitVec 32) {events : List LinkEvent}
    (few : Along (step halves) (Few halves) (initial halves pads pads' value unused checksum shmem lastUpdate) events)
    (told : Along (step halves) (Told halves) (initial halves pads pads' value unused checksum shmem lastUpdate) events) :
    Along (step halves) (Right halves) (initial halves pads pads' value unused checksum shmem lastUpdate) events := by
  refine Along.each (Agrees halves value) (fun l e agrees here => ?_) (agrees_initial ..) (few.and told)
  cases e with
  | slave e => exact ⟨agrees.slaveStep e, congrArg State.clicks (slaveStep_master e).1⟩
  | poll p => exact agrees.poll p here.1 here.2

/-- Two encoders on each half, and a click for each step -/
def twoEach : Halves where
  slave :=
    { directionFlip := false
      encoderResolutions _ := 1
      resolution_pos _ := by decide
      thisCount := 2
      thatCount := 2
      thisHand := 2
      thatHand := 0
      shouldProcessEncoder := false }
  master :=
    { directionFlip := false
      encoderResolutions _ := 1
      resolution_pos _ := by decide
      thisCount := 2
      thatCount := 2
      thisHand := 0
      thatHand := 2
      shouldProcessEncoder := true }
  sameHand := rfl
  sameCount := rfl
  forcedSyncThrottle := 100
  crc8 data := (Split.crc8 (data.map UInt8.ofBitVec)).toBitVec

/-- The counters of the slave's encoders are 0 and 17, and the master's copy is what was published. -/
def atSeventeen : Link :=
  initial twoEach (fun _ => ⟨false, false⟩) (fun _ => ⟨false, false⟩) (fun j => if j = 3 then 17 else 0) []
    (twoEach.crc8 [0, 17]) [0, 17] 0

/-- The slave's encoders come to these steps of a counter-clockwise turn. -/
def turned (first second : Nat) : LinkEvent :=
  let pads (n : Nat) : Pads := ⟨n % 4 = 2 ∨ n % 4 = 3, n % 4 = 1 ∨ n % 4 = 2⟩
  .slave (.turn (.read fun i => if i = 0 then pads first else pads second))

def quickPoll : LinkEvent := .poll ⟨true, 10, [], none, 10⟩

/-- A read that fails is tried again, and the slave turns back meanwhile. -/
theorem clicks_conserved_retried :
    Along (step twoEach) (Right twoEach) atSeventeen
      [turned 1 1, .slave (.publish []), .poll ⟨true, 10, [], some [7], 10⟩, .poll ⟨false, 10, [], none, 10⟩,
        .poll ⟨true, 11, [.turn (.read fun _ => ⟨false, false⟩), .publish []], none, 11⟩, quickPoll] :=
  clicks_conserved _ _ _ _ _ _ _ (by decide +kernel) (by decide +kernel)

/-- One click of the first encoder and 15 of the second give counters of the same checksum: the read succeeds, and none of the 16
clicks is emitted. -/
theorem clicks_not_emitted :
    let events := (List.range 15).map (fun n => turned 1 (n + 1)) ++ [.slave (.publish [])]
    let l := events.foldl (step twoEach) atSeventeen
    Along (step twoEach) (Few twoEach) atSeventeen (events ++ [quickPoll]) ∧
      l.published 0 = 1 ∧ l.published 1 = 15 ∧ (l.step twoEach quickPoll).master.clicks = [] ∧ ¬ l.Right twoEach quickPoll := by
  decide +kernel

end Link

end QmkFirmware.Encoder
