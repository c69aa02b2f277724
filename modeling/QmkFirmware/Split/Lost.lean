import QmkFirmware.Split.Consistent

/-!
# A half that is lost

After enough failed rounds in a row the keys of the other half are released, and they come back
with the first round that succeeds.
-/

namespace QmkFirmware.Split
open Lib

section

variable (cfg : Config)

/-- A round that is made and fails -/
def Failed (w : World) (s : Scan) : Prop := ¬ w.Throttled cfg s.checkedAt ∧ (w.transportMaster cfg s).1 = false

/-- A round that is made and succeeds -/
def Succeeded (w : World) (s : Scan) : Prop := ¬ w.Throttled cfg s.checkedAt ∧ (w.transportMaster cfg s).1 = true

/-- The rounds of the master fail. -/
def Fails (w : World) : Event → Prop
  | .publish _ => True
  | .scan s => Failed cfg w s

/-- No round of the master succeeds. -/
def Lost (w : World) : Event → Prop
  | .publish _ => True
  | .scan s => ¬ Succeeded cfg w s

/-- A checksum that agrees with the copy in the shared memory is that of the same matrix. -/
def Agrees (w : World) (a : Attempt) : Prop :=
  let x := w.publishAll cfg a.before
  a.checksumRead = true → ¬ x.Forced cfg a.elapsedAt → x.slave.checksum = cfg.crc8 x.shmem → x.shmem = x.slave.matrix

end

/-- The number of scans -/
def scans : List Event → Nat
  | [] => 0
  | .publish _ :: events => scans events
  | .scan _ :: events => scans events + 1

/-- The matrices that the slave has during a scan -/
def during (w : World) (attempts : List Attempt) : List Matrix :=
  w.slave.matrix :: attempts.flatMap fun a => a.before ++ a.between

section

variable {cfg : Config} {w : World} {a : Attempt} {s : Scan}

instance : Decidable (Failed cfg w s) := inferInstanceAs (Decidable (_ ∧ _))

instance : Decidable (Succeeded cfg w s) := inferInstanceAs (Decidable (_ ∧ _))

instance : (event : Event) → Decidable (Fails cfg w event)
  | .publish _ => isTrue trivial
  | .scan _ => inferInstanceAs (Decidable (_ ∧ _))

instance : (event : Event) → Decidable (Lost cfg w event)
  | .publish _ => isTrue trivial
  | .scan _ => inferInstanceAs (Decidable (¬ _))

instance : Decidable (Agrees cfg w a) := inferInstanceAs (Decidable (_ → ¬ _ → _ → _))

/-- While the master has given up the half, nothing is shown. -/
structure Released (cfg : Config) (w : World) : Prop where
  lastConnected : cfg.maxConnectionErrors ≤ w.connectionErrors.toNat → w.lastConnected = false
  thatHand : w.lastConnected = false → w.thatHand = cfg.zeros

/-- What the transactions leave alone -/
structure Beside (w x : World) : Prop where
  connectionErrors : x.connectionErrors = w.connectionErrors
  lastConnected : x.lastConnected = w.lastConnected
  thatHand : x.thatHand = w.thatHand

theorem Beside.trans {x y : World} (h : Beside w x) (h' : Beside x y) : Beside w y :=
  ⟨h'.connectionErrors.trans h.connectionErrors, h'.lastConnected.trans h.lastConnected, h'.thatHand.trans h.thatHand⟩

theorem publishAll_beside (matrices : List Matrix) : Beside w (w.publishAll cfg matrices) := by
  induction matrices generalizing w with
  | nil => exact ⟨rfl, rfl, rfl⟩
  | cons matrix matrices ih =>
    have first : Beside w (w.publish cfg matrix) := ⟨rfl, rfl, rfl⟩
    exact first.trans ih

theorem handlersMaster_beside : Beside w (w.handlersMaster cfg a).2 := by
  have before := @publishAll_beside cfg w a.before
  unfold World.handlersMaster
  dsimp only
  split
  · exact before
  · split
    · have between := before.trans (@publishAll_beside cfg (w.publishAll cfg a.before) a.between)
      split
      · exact ⟨between.connectionErrors, between.lastConnected, between.thatHand⟩
      · split
        all_goals exact ⟨between.connectionErrors, between.lastConnected, between.thatHand⟩
    · exact ⟨before.connectionErrors, before.lastConnected, before.thatHand⟩

theorem attemptsMaster_beside {retries : Nat} {attempts : List Attempt} :
    Beside w (w.attemptsMaster cfg retries attempts).2 := by
  induction retries generalizing attempts w with
  | zero => exact ⟨rfl, rfl, rfl⟩
  | succ retries ih =>
    cases attempts with
    | nil => exact ⟨rfl, rfl, rfl⟩
    | cons a attempts =>
      have here := @handlersMaster_beside cfg w a
      unfold World.attemptsMaster
      split
      next x okay =>
        rw [okay] at here
        exact here
      next x okay =>
        rw [okay] at here
        exact here.trans ih

theorem transportMaster_beside : Beside w (w.transportMaster cfg s).2 := attemptsMaster_beside

/-! ## The errors -/

/-- The count of the errors grows to 255. -/
theorem bump_errors (errors : UInt8) : (if errors < 255 then errors + 1 else errors).toNat = min (errors.toNat + 1) 255 := by
  have bound := errors.toNat_lt
  split
  next less =>
    have less : errors.toNat < 255 := UInt8.lt_iff_toNat_lt.mp less
    rw [UInt8.toNat_add, Nat.mod_eq_of_lt (by change errors.toNat + 1 < 256; omega)]
    change errors.toNat + 1 = _
    omega
  next less =>
    have less : ¬ errors.toNat < 255 := fun small => less (UInt8.lt_iff_toNat_lt.mpr small)
    omega

/-- What the transport does: it is throttled, a round succeeds, or a round fails, with which the half may be given up. -/
inductive Transport (cfg : Config) (w : World) (s : Scan) : Bool × World → Prop where
  | throttled (on : w.Throttled cfg s.checkedAt) : Transport cfg w s (false, w)
  | succeeded (okay : Succeeded cfg w s) : Transport cfg w s (true, { (w.transportMaster cfg s).2 with connectionErrors := 0 })
  | failed (failed : Failed cfg w s) (errors : UInt8) (count : errors.toNat = min (w.connectionErrors.toNat + 1) 255)
      (few : errors.toNat < cfg.maxConnectionErrors) :
      Transport cfg w s (true, { (w.transportMaster cfg s).2 with connectionErrors := errors })
  | lost (failed : Failed cfg w s) (errors : UInt8) (count : errors.toNat = min (w.connectionErrors.toNat + 1) 255)
      (many : cfg.maxConnectionErrors ≤ errors.toNat) (timer : UInt16) :
      Transport cfg w s (false, { (w.transportMaster cfg s).2 with connectionErrors := errors, connectionCheckTimer := timer })

theorem transport_cases (some : 0 < cfg.maxConnectionErrors) (timeout : 0 < cfg.connectionCheckTimeout) :
    Transport cfg w s (w.transportMasterIfConnected cfg s) := by
  have beside := @transportMaster_beside cfg w s
  unfold World.transportMasterIfConnected
  dsimp only
  by_cases throttled : w.Throttled cfg s.checkedAt
  · rw [if_pos throttled]
    exact .throttled throttled
  · rw [if_neg throttled, if_neg some.ne']
    cases okay : (w.transportMaster cfg s).1 with
    | true =>
      rw [if_pos rfl]
      exact .succeeded ⟨throttled, okay⟩
    | false =>
      have failed : Failed cfg w s := ⟨throttled, okay⟩
      rw [if_neg Bool.false_ne_true, if_pos timeout]
      have count := bump_errors (w.transportMaster cfg s).2.connectionErrors
      generalize (if (w.transportMaster cfg s).2.connectionErrors < 255 then (w.transportMaster cfg s).2.connectionErrors + 1
        else (w.transportMaster cfg s).2.connectionErrors) = errors at count ⊢
      rw [beside.connectionErrors] at count
      split
      next few => exact .failed failed errors count (of_decide_eq_true few)
      next many => exact .lost failed errors count (not_lt.mp fun few => many (decide_eq_true few)) _

/-- What the transport leaves alone -/
theorem Transport.beside {result : Bool × World} (h : Transport cfg w s result) :
    result.2.lastConnected = w.lastConnected ∧ result.2.thatHand = w.thatHand := by
  have beside := @transportMaster_beside cfg w s
  cases h with
  | throttled => exact ⟨rfl, rfl⟩
  | succeeded => exact ⟨beside.lastConnected, beside.thatHand⟩
  | failed => exact ⟨beside.lastConnected, beside.thatHand⟩
  | lost => exact ⟨beside.lastConnected, beside.thatHand⟩

/-- It is connected if it says so. -/
theorem Transport.connected {x : World} (h : Transport cfg w s (true, x)) (some : 0 < cfg.maxConnectionErrors) :
    x.connectionErrors.toNat < cfg.maxConnectionErrors := by
  cases h with
  | succeeded => exact some
  | failed _ _ _ few => exact few

/-- The count after a round that fails -/
theorem Transport.count {result : Bool × World} (h : Transport cfg w s result) (failed : Failed cfg w s) :
    result.2.connectionErrors.toNat = min (w.connectionErrors.toNat + 1) 255 := by
  cases h with
  | throttled on => exact absurd on failed.1
  | succeeded okay => exact absurd (failed.2.symm.trans okay.2) Bool.false_ne_true
  | failed _ errors count => exact count
  | lost _ errors count => exact count

/-- A scan in which no round succeeds does not lower it. -/
theorem Transport.mono {result : Bool × World} (h : Transport cfg w s result) (lost : ¬ Succeeded cfg w s) :
    w.connectionErrors.toNat ≤ result.2.connectionErrors.toNat := by
  have bound := w.connectionErrors.toNat_lt
  cases h with
  | throttled => exact le_rfl
  | succeeded okay => exact absurd okay lost
  | failed _ errors count =>
    dsimp only
    omega
  | lost _ errors count =>
    dsimp only
    omega

/-- `matrix_post_scan` leaves the count alone. -/
theorem scan_errors : (w.step cfg (.scan s)).connectionErrors = (w.transportMasterIfConnected cfg s).2.connectionErrors := by
  unfold World.step World.matrixPostScan
  dsimp only
  split
  next done => rw [done]
  next done =>
    rw [done]
    split <;> rfl

theorem Released.step (h : Released cfg w) (some : 0 < cfg.maxConnectionErrors) (timeout : 0 < cfg.connectionCheckTimeout)
    (event : Event) : Released cfg (w.step cfg event) := by
  cases event with
  | publish matrix => exact ⟨h.lastConnected, h.thatHand⟩
  | scan s =>
    have transport := @transport_cases cfg w s some timeout
    obtain ⟨last, hand⟩ := transport.beside
    unfold World.step World.matrixPostScan
    dsimp only
    split
    next x done =>
      rw [done] at transport
      have few := transport.connected some
      constructor
      · intro given
        dsimp only at given
        omega
      · intro on
        cases on
    next x done =>
      rw [done] at last hand
      split
      · exact ⟨fun _ => rfl, fun _ => rfl⟩
      next off =>
        have off := eq_false_of_ne_true off
        exact ⟨fun _ => off, fun _ => hand.trans (h.thatHand (last.symm.trans off))⟩

/-- A scan that changes the other half of the matrix reports it. -/
theorem scan_reports (same : (w.matrixPostScan cfg s).1 = false) (some : 0 < cfg.maxConnectionErrors)
    (timeout : 0 < cfg.connectionCheckTimeout) : (w.matrixPostScan cfg s).2.thatHand = w.thatHand := by
  obtain ⟨-, hand⟩ := (@transport_cases cfg w s some timeout).beside
  unfold World.matrixPostScan at same ⊢
  split at same
  next x done =>
    rw [done] at hand
    exact (bne_eq_false_iff_eq.mp same).symm.trans hand
  next x done =>
    rw [done] at hand
    split at same
    · cases same
    next off =>
      rw [if_neg off]
      exact hand

/-- As many failed rounds as there are counted -/
theorem errors_after {rounds : List Event} (some : 0 < cfg.maxConnectionErrors) (timeout : 0 < cfg.connectionCheckTimeout)
    (fails : Along (World.step cfg) (Fails cfg) w rounds) :
    min (w.connectionErrors.toNat + scans rounds) 255 ≤ (rounds.foldl (World.step cfg) w).connectionErrors.toNat := by
  induction rounds generalizing w with
  | nil =>
    change min (w.connectionErrors.toNat + 0) 255 ≤ w.connectionErrors.toNat
    omega
  | cons event rounds ih =>
    have later := ih fails.2
    rw [List.foldl_cons]
    cases event with
    | publish matrix => exact later
    | scan s =>
      have count : (w.step cfg (.scan s)).connectionErrors.toNat = min (w.connectionErrors.toNat + 1) 255 := by
        rw [scan_errors]
        exact (transport_cases some timeout).count fails.1
      rw [count] at later
      unfold scans
      omega

theorem errors_kept {later : List Event} (some : 0 < cfg.maxConnectionErrors) (timeout : 0 < cfg.connectionCheckTimeout)
    (lost : Along (World.step cfg) (Lost cfg) w later) :
    w.connectionErrors.toNat ≤ (later.foldl (World.step cfg) w).connectionErrors.toNat := by
  induction later generalizing w with
  | nil => exact le_rfl
  | cons event later ih =>
    apply le_trans _ (ih lost.2)
    cases event with
    | publish matrix => exact le_rfl
    | scan s =>
      rw [scan_errors]
      exact (transport_cases some timeout).mono lost.1

/-! ## The matrix that comes back -/

theorem publishAll_slave {matrices : List Matrix} : (w.publishAll cfg matrices).slave.matrix ∈ w.slave.matrix :: matrices := by
  induction matrices generalizing w with
  | nil => exact List.mem_cons_self
  | cons matrix matrices ih => exact List.mem_cons_of_mem _ (@ih (w.publish cfg matrix))

/-- A call that succeeds takes over a matrix that the slave has meanwhile. -/
theorem handlersMaster_during (agrees : Agrees cfg w a) :
    let result := w.handlersMaster cfg a
    (result.1 = true → result.2.lastMatrix ∈ w.slave.matrix :: (a.before ++ a.between)) ∧
      result.2.slave.matrix ∈ w.slave.matrix :: (a.before ++ a.between) := by
  have before := @publishAll_slave cfg w a.before
  have early : (w.publishAll cfg a.before).slave.matrix ∈ w.slave.matrix :: (a.before ++ a.between) := by
    rw [← List.cons_append]
    exact List.mem_append_left _ before
  have late : ((w.publishAll cfg a.before).publishAll cfg a.between).slave.matrix ∈ w.slave.matrix :: (a.before ++ a.between) := by
    rcases List.mem_cons.mp (@publishAll_slave cfg (w.publishAll cfg a.before) a.between) with same | new
    · rw [same]
      exact early
    · exact List.mem_cons_of_mem _ (List.mem_append_right _ new)
  unfold World.handlersMaster
  dsimp only
  split
  · exact ⟨Bool.noConfusion, early⟩
  next checksum =>
    split
    · split
      · exact ⟨Bool.noConfusion, late⟩
      · split
        · exact ⟨fun _ => late, late⟩
        · exact ⟨Bool.noConfusion, late⟩
    next trusted =>
      obtain ⟨unforced, same⟩ := not_or.mp trusted
      have copy := agrees (eq_true_of_ne_false checksum) unforced (not_ne_iff.mp same)
      refine ⟨fun _ => ?_, early⟩
      change (w.publishAll cfg a.before).shmem ∈ _
      rw [copy]
      exact early

theorem attemptsMaster_during {retries : Nat} {attempts : List Attempt} (agrees : AttemptsMeet cfg (Agrees cfg) retries attempts w)
    (okay : (w.attemptsMaster cfg retries attempts).1 = true) :
    (w.attemptsMaster cfg retries attempts).2.lastMatrix ∈ during w attempts := by
  induction retries generalizing attempts w with
  | zero => cases okay
  | succ retries ih =>
    cases attempts with
    | nil => cases okay
    | cons a attempts =>
      obtain ⟨taken, slave⟩ := handlersMaster_during agrees.1
      unfold World.attemptsMaster at okay ⊢
      unfold during
      rw [List.flatMap_cons, ← List.cons_append]
      split at okay
      next x done =>
        rw [done] at taken
        exact List.mem_append_left _ (taken rfl)
      next x done =>
        have rest := agrees.2
        rw [done] at slave rest
        rcases List.mem_cons.mp (ih (rest rfl) okay) with same | new
        · rw [same]
          exact List.mem_append_left _ slave
        · exact List.mem_append_right _ new

/-- A round that succeeds shows what it took over. -/
theorem Transport.shows {result : Bool × World} (h : Transport cfg w s result) (okay : Succeeded cfg w s) :
    result = (true, { (w.transportMaster cfg s).2 with connectionErrors := 0 }) := by
  cases h with
  | throttled on => exact absurd on okay.1
  | succeeded => rfl
  | failed failed => exact absurd (failed.2.symm.trans okay.2) Bool.false_ne_true
  | lost failed => exact absurd (failed.2.symm.trans okay.2) Bool.false_ne_true

theorem Succeeded.scan (h : Succeeded cfg w s) (some : 0 < cfg.maxConnectionErrors) (timeout : 0 < cfg.connectionCheckTimeout)
    (agrees : ScanMeets cfg (Agrees cfg) s w) : (w.step cfg (.scan s)).thatHand ∈ during w s.attempts := by
  have okay := h.2
  unfold World.transportMaster at okay
  have taken := attemptsMaster_during (agrees h.1) (Bool.and_eq_true_iff.mp okay).1
  unfold World.step World.matrixPostScan
  dsimp only
  rw [(transport_cases some timeout).shows h]
  exact taken

theorem released_initial : Released cfg (.initial cfg) := ⟨fun _ => rfl, fun _ => rfl⟩

/-- **A half that is lost releases its keys.** With a throttle, and a limit that the counter can reach, the other half of the
matrix is all zero after as many failed rounds in a row, and it stays so until a round succeeds, which shows what the slave
has then; and whatever scan changes it reports that. -/
theorem lost_half_released (some : 0 < cfg.maxConnectionErrors) (few : cfg.maxConnectionErrors ≤ 255)
    (timeout : 0 < cfg.connectionCheckTimeout) (events rounds later : List Event) :
    let w := events.foldl (World.step cfg) (.initial cfg)
    let lost := rounds.foldl (World.step cfg) w
    let x := later.foldl (World.step cfg) lost
    (∀ s, (w.matrixPostScan cfg s).1 = false → (w.matrixPostScan cfg s).2.thatHand = w.thatHand) ∧
      (Along (World.step cfg) (Fails cfg) w rounds → scans rounds = cfg.maxConnectionErrors →
        Along (World.step cfg) (Lost cfg) lost later →
        x.thatHand = cfg.zeros ∧
          ∀ s, Succeeded cfg x s → ScanMeets cfg (Agrees cfg) s x → (x.step cfg (.scan s)).thatHand ∈ during x s.attempts) := by
  intro w lost x
  refine ⟨fun s same => scan_reports same some timeout, ?_⟩
  intro fails count gone
  have released : Released cfg x := by
    have any : Along (World.step cfg) (fun _ _ => True) (.initial cfg) (events ++ rounds ++ later) :=
      Along.of_forall fun _ _ => trivial
    have all := any.invariant (Released cfg) (fun _ event h _ => h.step some timeout event) released_initial
    rw [List.foldl_append, List.foldl_append] at all
    exact all
  have reached := errors_after some timeout fails
  have kept := errors_kept some timeout gone
  constructor
  · apply released.thatHand
    apply released.lastConnected
    change _ ≤ lost.connectionErrors.toNat at reached
    change lost.connectionErrors.toNat ≤ x.connectionErrors.toNat at kept
    omega
  · exact fun s succeeded agrees => succeeded.scan some timeout agrees

end

/-- A scan whose transactions all fail -/
def deadScan (time : Nat) : Scan := ⟨time, List.replicate 10 ⟨[], false, time, [], none, time⟩, true, time⟩

/-- A key of the other half is pressed, and the cable is unplugged and plugged in again. -/
theorem lost_half_released_replug :
    let w := [Event.publish [1, 0], .scan (smoothScan 10)].foldl (World.step twoBytes) (.initial twoBytes)
    let lost := (List.replicate 10 (Event.scan (deadScan 20))).foldl (World.step twoBytes) w
    w.thatHand = [1, 0] ∧ lost.thatHand = twoBytes.zeros ∧
      (lost.step twoBytes (.scan (smoothScan 600))).thatHand ∈ during lost (smoothScan 600).attempts := by
  intro w lost
  have fails : Along (World.step twoBytes) (Fails twoBytes) w (List.replicate 10 (Event.scan (deadScan 20))) := by decide +kernel
  have all := @lost_half_released twoBytes (by decide) (by decide) (by decide)
    [.publish [1, 0], .scan (smoothScan 10)] (List.replicate 10 (.scan (deadScan 20))) []
  simp only [List.foldl_nil] at all
  obtain ⟨released, shows⟩ := all.2 fails rfl trivial
  exact ⟨by decide +kernel, released, shows (smoothScan 600) (by decide +kernel) (by decide +kernel)⟩

/-- Without a throttle the counter is reset after each failed round, and the key stays pressed. -/
theorem unthrottled_half_stuck :
    let cfg := { twoBytes with connectionCheckTimeout := 0 }
    let w := [Event.publish [1, 0], .scan (smoothScan 10)].foldl (World.step cfg) (.initial cfg)
    let rounds := List.replicate 10 (Event.scan (deadScan 20))
    Along (World.step cfg) (Fails cfg) w rounds ∧ scans rounds = cfg.maxConnectionErrors ∧
      (rounds.foldl (World.step cfg) w).thatHand = [1, 0] := by
  decide +kernel

end QmkFirmware.Split
