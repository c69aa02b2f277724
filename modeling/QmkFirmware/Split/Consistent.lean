import QmkFirmware.Lib.Run
import QmkFirmware.Split.Code

/-!
# The link shows what was published

Whatever the master takes over was published by the slave, and never before what it shows
already, as long as no read that failed leaves bytes which agree with a checksum by chance.
-/

namespace QmkFirmware.Split
open Lib

/-- A condition on the calls of the loop of `transaction_handler_master` -/
def AttemptsMeet (cfg : Config) (p : World → Attempt → Prop) : (retries : Nat) → List Attempt → World → Prop
  | 0, _, _ => True
  | _ + 1, [], _ => True
  | retries + 1, a :: attempts, w =>
    p w a ∧ ((w.handlersMaster cfg a).1 = false → AttemptsMeet cfg p retries attempts (w.handlersMaster cfg a).2)

/-- A condition on the calls of a scan -/
def ScanMeets (cfg : Config) (p : World → Attempt → Prop) (s : Scan) (w : World) : Prop :=
  ¬ w.Throttled cfg s.checkedAt → AttemptsMeet cfg p (if w.isTransportConnected cfg then 10 else 1) s.attempts w

/-- The bytes that a read left behind do not agree with a checksum that is read later. -/
def Told (cfg : Config) (w : World) (a : Attempt) : Prop :=
  a.checksumRead = true → w.held = none → (w.publishAll cfg a.before).slave.checksum ≠ cfg.crc8 w.shmem

/-- The condition of a step -/
def LeftoversTold (cfg : Config) (w : World) : Event → Prop
  | .publish _ => True
  | .scan s => ScanMeets cfg (Told cfg) s w

instance decidableAttempts (cfg : Config) (p : World → Attempt → Prop) [∀ w a, Decidable (p w a)] :
    ∀ retries attempts w, Decidable (AttemptsMeet cfg p retries attempts w)
  | 0, _, _ => isTrue trivial
  | _ + 1, [], _ => isTrue trivial
  | retries + 1, a :: attempts, w =>
    haveI := decidableAttempts cfg p retries attempts (w.handlersMaster cfg a).2
    inferInstanceAs (Decidable (p w a ∧ ((w.handlersMaster cfg a).1 = false → _)))

instance (cfg : Config) (p : World → Attempt → Prop) [∀ w a, Decidable (p w a)] (s : Scan) (w : World) :
    Decidable (ScanMeets cfg p s w) := inferInstanceAs (Decidable (¬ _ → AttemptsMeet _ _ _ _ _))

instance (cfg : Config) (w : World) (a : Attempt) : Decidable (Told cfg w a) := inferInstanceAs (Decidable (_ → _ → _))

instance (cfg : Config) (w : World) : (event : Event) → Decidable (LeftoversTold cfg w event)
  | .publish _ => isTrue trivial
  | .scan s => inferInstanceAs (Decidable (ScanMeets cfg (Told cfg) s w))

/-- What the master has is what was published, the copy last. -/
structure Consistent (cfg : Config) (w : World) : Prop where
  slave : w.published.getLast? = some w.slave.matrix
  held : ∀ i, w.held = some i → w.published[i]? = some w.shmem ∧ w.kept ≤ i
  kept : w.published[w.kept]? = some w.lastMatrix
  shown : ∀ i, w.shown = some i → w.published[i]? = some w.thatHand ∧ i ≤ w.kept
  reset : w.shown = none → w.thatHand = cfg.zeros

/-- What a transaction does not touch, and that the publication in `last_matrix` is no older one -/
structure Apart (w x : World) : Prop where
  shown : x.shown = w.shown
  thatHand : x.thatHand = w.thatHand
  kept : w.kept ≤ x.kept

section

variable {cfg : Config} {w : World} {a : Attempt} {s : Scan}

theorem Apart.refl : Apart w w := ⟨rfl, rfl, le_rfl⟩

theorem Apart.trans {x y : World} (h : Apart w x) (h' : Apart x y) : Apart w y :=
  ⟨h'.shown.trans h.shown, h'.thatHand.trans h.thatHand, h.kept.trans h'.kept⟩

theorem getElem?_append_of_some {l l' : List Matrix} {i : Nat} {m : Matrix} (h : l[i]? = some m) : (l ++ l')[i]? = some m := by
  obtain ⟨bound, -⟩ := List.getElem?_eq_some_iff.mp h
  rw [List.getElem?_append_left bound]
  exact h

theorem consistent_initial : Consistent cfg (.initial cfg) where
  slave := rfl
  held i on := by
    cases on
    exact ⟨rfl, le_rfl⟩
  kept := rfl
  shown i on := by cases on
  reset _ := rfl

theorem Consistent.publish (h : Consistent cfg w) (matrix : Matrix) : Consistent cfg (w.publish cfg matrix) where
  slave := List.getLast?_concat
  held i on := ⟨getElem?_append_of_some (h.held i on).1, (h.held i on).2⟩
  kept := getElem?_append_of_some h.kept
  shown i on := ⟨getElem?_append_of_some (h.shown i on).1, (h.shown i on).2⟩
  reset := h.reset

/-- Publications leave the master as it is. -/
theorem publishAll_same (matrices : List Matrix) :
    (w.publishAll cfg matrices).held = w.held ∧ (w.publishAll cfg matrices).shmem = w.shmem ∧ Apart w (w.publishAll cfg matrices) := by
  induction matrices generalizing w with
  | nil => exact ⟨rfl, rfl, Apart.refl⟩
  | cons matrix matrices ih =>
    obtain ⟨held, shmem, apart⟩ := @ih (w.publish cfg matrix)
    have first : Apart w (w.publish cfg matrix) := ⟨rfl, rfl, le_rfl⟩
    exact ⟨held, shmem, first.trans apart⟩

theorem Consistent.publishAll (h : Consistent cfg w) (matrices : List Matrix) : Consistent cfg (w.publishAll cfg matrices) := by
  induction matrices generalizing w with
  | nil => exact h
  | cons matrix matrices ih => exact ih (h.publish matrix)

/-- A copy that was published is accepted. -/
theorem Consistent.accept (h : Consistent cfg w) {i : Nat} (held : w.held = some i) :
    Consistent cfg w.accept ∧ Apart w w.accept := by
  obtain ⟨shmem, le⟩ := h.held i held
  have kept : w.accept.kept = i := by
    unfold World.accept
    rw [held]
    rfl
  constructor
  · constructor
    · exact h.slave
    · intro j on
      obtain rfl := Option.some.inj (held.symm.trans on)
      exact ⟨shmem, kept.le⟩
    · rw [kept]
      exact shmem
    · intro j on
      rw [kept]
      exact ⟨(h.shown j on).1, (h.shown j on).2.trans le⟩
    · exact h.reset
  · exact ⟨rfl, rfl, kept.symm ▸ le⟩

/-- A read of the matrix -/
theorem Consistent.read (h : Consistent cfg w) :
    Consistent cfg { w with shmem := w.slave.matrix, held := some (w.published.length - 1) } := by
  have last := h.slave
  rw [List.getLast?_eq_getElem?] at last
  constructor
  · exact h.slave
  · intro i on
    obtain rfl := Option.some.inj on
    obtain ⟨bound, -⟩ := List.getElem?_eq_some_iff.mp h.kept
    exact ⟨last, by change w.kept ≤ w.published.length - 1; omega⟩
  · exact h.kept
  · exact h.shown
  · exact h.reset

theorem Consistent.handlersMaster (h : Consistent cfg w) (told : Told cfg w a) :
    Consistent cfg (w.handlersMaster cfg a).2 ∧ Apart w (w.handlersMaster cfg a).2 := by
  obtain ⟨heldBefore, shmemBefore, apartBefore⟩ := @publishAll_same cfg w a.before
  have before := h.publishAll a.before
  unfold World.handlersMaster
  dsimp only
  split
  · exact ⟨before, apartBefore⟩
  next checksum =>
    split
    · have between := before.publishAll a.between
      obtain ⟨-, -, apart⟩ := @publishAll_same cfg (w.publishAll cfg a.before) a.between
      have apart := apartBefore.trans apart
      split
      · refine ⟨⟨between.slave, ?_, between.kept, between.shown, between.reset⟩, ⟨apart.shown, apart.thatHand, apart.kept⟩⟩
        intro i on
        cases on
      · have read := between.read
        split
        · obtain ⟨accepted, kept⟩ := read.accept rfl
          refine ⟨⟨accepted.slave, accepted.held, accepted.kept, accepted.shown, accepted.reset⟩, ?_⟩
          exact apart.trans ⟨kept.shown, kept.thatHand, kept.kept⟩
        · exact ⟨read, apart.trans ⟨rfl, rfl, le_rfl⟩⟩
    next agrees =>
      obtain ⟨-, same⟩ := not_or.mp agrees
      rw [not_ne_iff, shmemBefore] at same
      cases held : w.held with
      | none => exact absurd same (told (eq_true_of_ne_false checksum) held)
      | some i =>
        obtain ⟨accepted, kept⟩ := before.accept (heldBefore.trans held)
        exact ⟨accepted, apartBefore.trans kept⟩

theorem Consistent.attemptsMaster {retries : Nat} {attempts : List Attempt} (h : Consistent cfg w)
    (told : AttemptsMeet cfg (Told cfg) retries attempts w) :
    Consistent cfg (w.attemptsMaster cfg retries attempts).2 ∧ Apart w (w.attemptsMaster cfg retries attempts).2 := by
  induction retries generalizing attempts w with
  | zero => exact ⟨h, Apart.refl⟩
  | succ retries ih =>
    cases attempts with
    | nil => exact ⟨h, Apart.refl⟩
    | cons a attempts =>
      obtain ⟨here, later⟩ := told
      obtain ⟨consistent, apart⟩ := h.handlersMaster here
      unfold World.attemptsMaster
      split
      next w' okay =>
        rw [okay] at consistent apart
        exact ⟨consistent, apart⟩
      next w' okay =>
        rw [okay] at consistent apart later
        obtain ⟨consistent, apart'⟩ := ih consistent (later rfl)
        exact ⟨consistent, apart.trans apart'⟩

theorem Consistent.transportMasterIfConnected (h : Consistent cfg w) (told : ScanMeets cfg (Told cfg) s w) :
    Consistent cfg (w.transportMasterIfConnected cfg s).2 ∧ Apart w (w.transportMasterIfConnected cfg s).2 := by
  unfold World.transportMasterIfConnected
  split
  · exact ⟨h, Apart.refl⟩
  next free =>
    obtain ⟨consistent, apart⟩ := h.attemptsMaster (told free)
    unfold World.transportMaster
    generalize w.attemptsMaster cfg (if w.isTransportConnected cfg then 10 else 1) s.attempts = result at consistent apart
    dsimp only
    split_ifs
    all_goals exact ⟨⟨consistent.slave, consistent.held, consistent.kept, consistent.shown, consistent.reset⟩,
      ⟨apart.shown, apart.thatHand, apart.kept⟩⟩

theorem Consistent.matrixPostScan (h : Consistent cfg w) (told : ScanMeets cfg (Told cfg) s w) :
    Consistent cfg (w.matrixPostScan cfg s).2 ∧
      ∀ i, w.shown = some i → ∀ j, (w.matrixPostScan cfg s).2.shown = some j → i ≤ j := by
  obtain ⟨consistent, apart⟩ := h.transportMasterIfConnected told
  unfold World.matrixPostScan
  split
  next x done =>
    rw [done] at consistent apart
    constructor
    · constructor
      · exact consistent.slave
      · exact consistent.held
      · exact consistent.kept
      · intro i on
        obtain rfl := Option.some.inj on
        exact ⟨consistent.kept, le_rfl⟩
      · intro on
        cases on
    · intro i on j on'
      obtain rfl := Option.some.inj on'
      exact (h.shown i on).2.trans apart.kept
  next x done =>
    rw [done] at consistent apart
    split
    · constructor
      · constructor
        · exact consistent.slave
        · exact consistent.held
        · exact consistent.kept
        · intro i on
          cases on
        · exact fun _ => rfl
      · intro i on j on'
        cases on'
    · refine ⟨consistent, ?_⟩
      intro i on j on'
      rw [apart.shown, on] at on'
      exact (Option.some.inj on').le

/-! ## A link that works -/

variable {m : Matrix}

/-- Both reads of a call succeed, and the slave publishes nothing but `m`. -/
def Attempt.Smooth (m : Matrix) (a : Attempt) : Prop :=
  a.checksumRead = true ∧ a.leftover = none ∧ (∀ x ∈ a.before, x = m) ∧ ∀ x ∈ a.between, x = m

/-- All transactions succeed, and the slave publishes nothing but `m`. -/
def Smooth (m : Matrix) : Event → Prop
  | .publish x => x = m
  | .scan s => s.others = true ∧ s.attempts ≠ [] ∧ ∀ a ∈ s.attempts, a.Smooth m

instance (a : Attempt) : Decidable (a.Smooth m) := inferInstanceAs (Decidable (_ ∧ _ ∧ _ ∧ _))

instance : (event : Event) → Decidable (Smooth m event)
  | .publish _ => inferInstanceAs (Decidable (_ = _))
  | .scan _ => inferInstanceAs (Decidable (_ ∧ _ ≠ [] ∧ _))

/-- The slave has published `m`, and the master scans without throttle. -/
structure Steady (cfg : Config) (m : Matrix) (w : World) : Prop where
  slave : w.slave = ⟨m, cfg.crc8 m⟩
  linked : cfg.maxConnectionErrors = 0 ∨ cfg.connectionCheckTimeout = 0 ∨ w.isTransportConnected cfg = true

theorem publishAll_smooth {matrices : List Matrix} (smooth : ∀ x ∈ matrices, x = m) (slave : w.slave = ⟨m, cfg.crc8 m⟩) :
    ∃ published, w.publishAll cfg matrices = { w with published := published } := by
  induction matrices generalizing w with
  | nil => exact ⟨w.published, rfl⟩
  | cons x matrices ih =>
    obtain rfl := smooth x List.mem_cons_self
    obtain ⟨published, same⟩ := @ih (w.publish cfg x) (fun y mem => smooth y (List.mem_cons_of_mem _ mem)) rfl
    refine ⟨published, same.trans ?_⟩
    unfold World.publish
    rw [slave]

/-- A call with a link that works: the matrix is read, or the copy agrees with the checksum. -/
theorem handlersMaster_smooth (smooth : a.Smooth m) (slave : w.slave = ⟨m, cfg.crc8 m⟩) :
    ∃ x, w.handlersMaster cfg a = (true, x) ∧ x.slave = w.slave ∧ x.connectionErrors = w.connectionErrors ∧
      x.lastMatrix = x.shmem ∧
      (x.shmem = m ∨ x.shmem = w.shmem ∧ x.lastUpdate = w.lastUpdate ∧ ¬ w.Forced cfg a.elapsedAt) := by
  obtain ⟨checksum, leftover, before, between⟩ := smooth
  obtain ⟨published, same⟩ := publishAll_smooth before slave
  unfold World.handlersMaster
  simp only [same, checksum, leftover, Bool.true_eq_false, if_false]
  split
  · obtain ⟨published', same'⟩ := @publishAll_smooth cfg { w with published := published } m a.between between slave
    simp only [same']
    simp only [slave, if_true]
    exact ⟨_, rfl, rfl, rfl, rfl, .inl rfl⟩
  next agrees => exact ⟨_, rfl, rfl, rfl, rfl, .inr ⟨rfl, rfl, fun forced => agrees (.inl forced)⟩⟩

/-- A scan with a link that works -/
theorem Steady.scan (h : Steady cfg m w) (smooth : Smooth m (.scan s)) :
    let x := w.step cfg (.scan s)
    Steady cfg m x ∧ x.thatHand = x.shmem ∧
      (x.shmem = m ∨ x.shmem = w.shmem ∧ x.lastUpdate = w.lastUpdate ∧
        ∀ a ∈ s.attempts.head?, ¬ w.Forced cfg a.elapsedAt) := by
  obtain ⟨others, some, attempts⟩ := smooth
  obtain ⟨a, rest, cons⟩ := List.exists_cons_of_ne_nil some
  obtain ⟨x, handled, slave, errors, last, shmem⟩ := handlersMaster_smooth (attempts a (by rw [cons]; exact List.mem_cons_self)) h.slave
  have free : ¬ w.Throttled cfg s.checkedAt := by
    rintro ⟨⟨errors, timeout⟩, connected, -⟩
    rcases h.linked with none | none | yes
    · omega
    · omega
    · rw [yes] at connected
      cases connected
  have tried : w.attemptsMaster cfg (if w.isTransportConnected cfg then 10 else 1) s.attempts = (true, x) := by
    rw [cons]
    split <;> rw [World.attemptsMaster, handled]
  have head : (∀ b ∈ s.attempts.head?, ¬ w.Forced cfg b.elapsedAt) ↔ ¬ w.Forced cfg a.elapsedAt := by
    rw [cons]
    simp
  unfold World.step World.matrixPostScan World.transportMasterIfConnected World.transportMaster
  simp only [if_neg free, tried, others, Bool.and_self, if_true]
  rw [head]
  by_cases none : cfg.maxConnectionErrors = 0
  · simp only [if_pos none]
    exact ⟨⟨slave.trans h.slave, .inl none⟩, last, shmem⟩
  · simp only [if_neg none]
    refine ⟨⟨slave.trans h.slave, .inr (.inr ?_)⟩, last, shmem⟩
    unfold World.isTransportConnected
    exact decide_eq_true (Nat.pos_of_ne_zero none)

/-- What is left to be read: the copy is `m`, or nothing was read since `lastUpdate`. -/
theorem Steady.step (h : Steady cfg m w) {event : Event} (smooth : Smooth m event) :
    let x := w.step cfg event
    Steady cfg m x ∧ (x.shmem = m ∨ x.shmem = w.shmem ∧ x.lastUpdate = w.lastUpdate) ∧
      (w.thatHand = w.shmem → x.thatHand = x.shmem) := by
  cases event with
  | publish matrix =>
    obtain rfl : matrix = m := smooth
    exact ⟨⟨rfl, h.linked⟩, .inr ⟨rfl, rfl⟩, id⟩
  | scan s =>
    obtain ⟨steady, shown, read⟩ := h.scan smooth
    refine ⟨steady, ?_, fun _ => shown⟩
    exact read.imp_right fun same => ⟨same.1, same.2.1⟩

theorem Steady.run (h : Steady cfg m w) {events : List Event} (smooth : ∀ event ∈ events, Smooth m event) :
    let x := events.foldl (World.step cfg) w
    Steady cfg m x ∧ (x.shmem = m ∨ x.shmem = w.shmem ∧ x.lastUpdate = w.lastUpdate) ∧
      (w.thatHand = w.shmem → x.thatHand = x.shmem) := by
  induction events generalizing w with
  | nil => exact ⟨h, .inr ⟨rfl, rfl⟩, id⟩
  | cons event events ih =>
    obtain ⟨steady, read, shown⟩ := h.step (smooth event List.mem_cons_self)
    obtain ⟨steady', read', shown'⟩ := ih steady fun event mem => smooth event (List.mem_cons_of_mem _ mem)
    refine ⟨steady', ?_, fun same => shown' (shown same)⟩
    rcases read' with done | ⟨same, update⟩
    · exact .inl done
    · rcases read with done | ⟨same', update'⟩
      · exact .inl (same.trans done)
      · exact .inr ⟨same.trans same', update.trans update'⟩

/-- Between two scans the 32-bit timer shows that the throttle is over. -/
theorem forced_later {first later : Nat} (before : ¬ w.Forced cfg first) (late : first + cfg.forcedSyncThrottle ≤ later)
    (soon : later + cfg.forcedSyncThrottle ≤ first + 2 ^ 32) {x : World} (update : x.lastUpdate = w.lastUpdate) :
    x.Forced cfg later := by
  unfold World.Forced at before ⊢
  obtain ⟨gap, rfl⟩ := Nat.exists_eq_add_of_le (Nat.le_of_add_right_le late)
  have add : UInt32.ofNat (first + gap) - w.lastUpdate = (UInt32.ofNat first - w.lastUpdate) + UInt32.ofNat gap := by
    rw [UInt32.ofNat_add, UInt32.sub_eq_add_neg, UInt32.sub_eq_add_neg, UInt32.add_assoc, UInt32.add_comm (UInt32.ofNat gap),
      ← UInt32.add_assoc]
  have small : gap % 2 ^ 32 = gap := Nat.mod_eq_of_lt (by omega)
  rw [update, add, UInt32.toNat_add, UInt32.toNat_ofNat', small, Nat.mod_eq_of_lt (by omega)]
  omega

/-- **The link is consistent.** What the master shows of the other half is all zero or was published, and never before what
it showed already since the last reset. When all transactions succeed and the slave keeps publishing `m`, it shows `m` as
soon as there was a scan `FORCED_SYNC_THROTTLE_MS` or more after another one, and not so late that the timer wraps. -/
theorem link_consistent {events : List Event} (ok : Along (World.step cfg) (LeftoversTold cfg) (.initial cfg) events) :
    let w := events.foldl (World.step cfg) (.initial cfg)
    (w.thatHand = cfg.zeros ∧ w.shown = none ∨ ∃ i, w.shown = some i ∧ w.published[i]? = some w.thatHand) ∧
      (∀ event, LeftoversTold cfg w event → ∀ i, w.shown = some i → ∀ j, (w.step cfg event).shown = some j → i ≤ j) ∧
      ∀ (m : Matrix) (first later : Scan) (a b : Attempt) (between after : List Event), Steady cfg m w →
        (∀ event ∈ .scan first :: between ++ .scan later :: after, Smooth m event) →
        first.attempts.head? = some a → later.attempts.head? = some b →
        a.elapsedAt + cfg.forcedSyncThrottle ≤ b.elapsedAt → b.elapsedAt + cfg.forcedSyncThrottle ≤ a.elapsedAt + 2 ^ 32 →
        ((.scan first :: between ++ .scan later :: after).foldl (World.step cfg) w).thatHand = m := by
  intro w
  have h : Consistent cfg w := by
    apply ok.invariant (Consistent cfg) _ consistent_initial
    intro w event h told
    cases event with
    | publish matrix => exact h.publish matrix
    | scan s => exact (h.matrixPostScan told).1
  refine ⟨?_, ?_, ?_⟩
  · cases on : w.shown with
    | none => exact .inl ⟨h.reset on, rfl⟩
    | some i => exact .inr ⟨i, rfl, (h.shown i on).1⟩
  · intro event told i on j on'
    cases event with
    | publish matrix =>
      rw [show (w.step cfg (.publish matrix)).shown = w.shown from rfl, on] at on'
      exact (Option.some.inj on').le
    | scan s => exact (h.matrixPostScan told).2 i on j on'
  · intro m first later a b between after steady smooth headFirst headLater late soon
    rw [List.cons_append, List.foldl_cons, List.foldl_append, List.foldl_cons]
    obtain ⟨steady₁, -, read₁⟩ := steady.scan (smooth (.scan first) List.mem_cons_self)
    obtain ⟨steady₂, read₂, -⟩ := steady₁.run fun event mem =>
      smooth event (List.mem_cons_of_mem _ (List.mem_append_left _ mem))
    obtain ⟨steady₃, shown₃, read₃⟩ := steady₂.scan (smooth (.scan later) (List.mem_append_right _ List.mem_cons_self))
    obtain ⟨-, read₄, shown₄⟩ := steady₃.run fun event mem =>
      smooth event (List.mem_append_right _ (List.mem_cons_of_mem _ mem))
    have done : ((between.foldl (World.step cfg) (w.step cfg (.scan first))).step cfg (.scan later)).shmem = m := by
      rcases read₃ with done | ⟨same₃, -, early⟩
      · exact done
      · rcases read₂ with done | ⟨same₂, update₂⟩
        · exact same₃.trans done
        · rcases read₁ with done | ⟨-, update₁, before⟩
          · exact same₃.trans (same₂.trans done)
          · exact absurd (forced_later (before a headFirst) late soon (update₂.trans update₁)) (early b headLater)
    rw [shown₄ shown₃]
    exact read₄.elim id fun same => same.1.trans done

end

/-- The defaults, with two bytes in a half -/
def twoBytes : Config := ⟨2, 10, 500, 100, crc8⟩

/-- A scan whose transactions all succeed at the first call, at one time -/
def smoothScan (time : Nat) : Scan := ⟨time, [⟨[], true, time, [], none, time⟩], true, time⟩

/-- A key is pressed, the first read of the matrix fails, and the matrix is shown in a later scan. -/
theorem link_consistent_retry :
    let events : List Event := [.publish [1, 0], .scan ⟨10, [⟨[], true, 10, [], some [7, 7], 10⟩, ⟨[], false, 11, [], none, 11⟩], true, 11⟩]
    let w := events.foldl (World.step twoBytes) (.initial twoBytes)
    ([.scan (smoothScan 20), .scan (smoothScan 120)].foldl (World.step twoBytes) w).thatHand = [1, 0] := by
  intro events w
  have ok : Along (World.step twoBytes) (LeftoversTold twoBytes) (.initial twoBytes) events := by decide +kernel
  exact (link_consistent ok).2.2 [1, 0] (smoothScan 20) (smoothScan 120) _ _ [] []
    ⟨by decide +kernel, .inr (.inr (by decide +kernel))⟩ (by decide) rfl rfl (by decide) (by decide)

/-- The checksum of the two matrices is the same, and the timer wraps between the two scans: the matrix of the slave is not
shown although all transactions succeeded for more than 49 days. -/
theorem wrapped_timer_hides :
    let m : Matrix := [0x01, 0x31]
    let w := World.step twoBytes (.initial twoBytes) (.publish m)
    let period : List Event := [.scan (smoothScan 50), .scan (smoothScan (50 + (2 ^ 32 - 10)))]
    (∀ event ∈ period, Smooth m event) ∧ 100 < 2 ^ 32 - 10 ∧ w.slave = ⟨m, crc8 m⟩ ∧
      (period.foldl (World.step twoBytes) w).thatHand = [0, 0] := by
  decide +kernel

end QmkFirmware.Split
