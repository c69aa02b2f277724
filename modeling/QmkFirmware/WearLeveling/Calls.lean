import QmkFirmware.WearLeveling.Durability

/-!
# The calls of the driver

What a public operation asks of its driver, whatever the driver answers. `Calls`
relates two states of the driver that calls of some kinds lead from one to the
other; between unlocking and locking an operation only initialises, reads,
erases and writes. `logged` is a driver that remembers its calls.
-/

namespace QmkFirmware.WearLeveling
open Lib

/-- A call of the driver, and whether it succeeded. -/
inductive StoreCall where
  | init (ok : Bool)
  | unlock (ok : Bool)
  | erase (ok : Bool)
  | write (address : Nat) (ok : Bool)
  | lock (ok : Bool)
  | read (address : Nat) (ok : Bool)
  deriving DecidableEq, Repr

namespace StoreCall

/-- The call leaves the store as it is. -/
def reads : StoreCall → Bool
  | .init _ => true
  | .read _ _ => true
  | _ => false

/-- The call changes what is stored. -/
def changes : StoreCall → Bool
  | .erase _ => true
  | .write _ _ => true
  | _ => false

/-- The call does not move the lock. -/
def keepsLock : StoreCall → Bool
  | .unlock _ => false
  | .lock _ => false
  | _ => true

theorem keepsLock_of_reads {call : StoreCall} (h : call.reads = true) : call.keepsLock = true := by
  cases call <;> simp_all [reads, keepsLock]

theorem changes_of_reads {call : StoreCall} (h : call.reads = true) : call.changes = false := by
  cases call <;> simp_all [reads, changes]

end StoreCall

variable {σ : Type}

/-- One call takes the driver from a state to another. -/
inductive Call (d : BackingStore σ) : StoreCall → σ → σ → Prop where
  | init (s : σ) : Call d (.init (d.init s).1) s (d.init s).2
  | unlock (s : σ) : Call d (.unlock (d.unlock s).1) s (d.unlock s).2
  | erase (s : σ) : Call d (.erase (d.erase s).1) s (d.erase s).2
  | write (s : σ) (a : Nat) (w : Word) : Call d (.write a (d.write s a w).1) s (d.write s a w).2
  | lock (s : σ) : Call d (.lock (d.lock s).1) s (d.lock s).2
  | read (s : σ) (a : Nat) : Call d (.read a (d.read s a).1.isSome) s (d.read s a).2

/-- Calls of the allowed kinds take the driver from a state to another. -/
inductive Calls (d : BackingStore σ) (allowed : StoreCall → Bool) : σ → σ → Prop where
  | refl (s : σ) : Calls d allowed s s
  | step {s t u : σ} {call : StoreCall} (here : Call d call s t) (ok : allowed call = true)
      (rest : Calls d allowed t u) : Calls d allowed s u

namespace Calls

variable {d : BackingStore σ} {allowed allowed' : StoreCall → Bool} {s t u : σ}

theorem one {call : StoreCall} (h : Call d call s t) (ok : allowed call = true) : Calls d allowed s t :=
  .step h ok (.refl t)

theorem trans (h : Calls d allowed s t) (h' : Calls d allowed t u) : Calls d allowed s u := by
  induction h with
  | refl s => exact h'
  | step here ok _ ih => exact .step here ok (ih h')

theorem mono (weaken : ∀ call, allowed call = true → allowed' call = true) (h : Calls d allowed s t) :
    Calls d allowed' s t := by
  induction h with
  | refl s => exact .refl s
  | step here ok _ ih => exact .step here (weaken _ ok) ih

/-- What every allowed call keeps. -/
theorem kept {P : σ → Prop} (keep : ∀ call s t, Call d call s t → allowed call = true → P s → P t)
    (h : Calls d allowed s t) (start : P s) : P t := by
  induction h with
  | refl s => exact start
  | step here ok _ ih => exact ih (keep _ _ _ here ok start)

end Calls

/-! ## Reading -/

section Functions

variable (d : BackingStore σ) (c : Config)

theorem readBulk_calls (n : Nat) : ∀ (store : σ) (a : Nat),
    Calls d StoreCall.reads store (readBulk d c store a n).2.2 := by
  induction n with
  | zero => exact fun store a => .refl store
  | succ n ih =>
    intro store a
    rw [readBulk]
    have here := Call.read (d := d) store a
    generalize d.read store a = result at here ⊢
    rcases result with ⟨_ | w, store'⟩
    · exact .one here rfl
    · exact .step here rfl (ih store' (a + c.ws))

/-- The function reads, and neither takes the lock nor gives it back. -/
def OnlyReads (d : BackingStore σ) (s s' : State σ) : Prop :=
  Calls d StoreCall.reads s.store s'.store ∧ s'.unlocked = s.unlocked

theorem OnlyReads.rfl {d : BackingStore σ} {s : State σ} : OnlyReads d s s := ⟨.refl _, Eq.refl _⟩

theorem OnlyReads.trans {d : BackingStore σ} {s s' s'' : State σ} (h : OnlyReads d s s')
    (h' : OnlyReads d s' s'') : OnlyReads d s s'' :=
  ⟨h.1.trans h'.1, h'.2.trans h.2⟩

theorem readConsolidated_reads (s : State σ) : OnlyReads d s (readConsolidated d c s).2 := by
  rw [readConsolidated]
  have data := readBulk_calls d c (c.logicalSize / c.ws) s.store 0
  generalize readBulk d c s.store 0 (c.logicalSize / c.ws) = result at data ⊢
  rcases result with ⟨ok, bytes, store⟩
  cases ok with
  | false => exact ⟨data, Eq.refl _⟩
  | true =>
    have sum := readBulk_calls d c (8 / c.ws) store c.logicalSize
    simp only [if_true]
    generalize readBulk d c store c.logicalSize (8 / c.ws) = result at sum ⊢
    rcases result with ⟨ok', sum', store'⟩
    simp only
    split
    · exact ⟨data.trans sum, Eq.refl _⟩
    · exact ⟨data.trans sum, Eq.refl _⟩

theorem fetchAll_reads (ps : List Nat) : ∀ (pb : Playback σ) (log : LogEntry),
    OnlyReads d pb.state (fetchAll d c pb log ps).2.state := by
  induction ps with
  | nil => exact fun pb log => .rfl
  | cons pos rest ih =>
    intro pb log
    rw [fetchAll, fetch]
    have here := Call.read (d := d) pb.state.store pb.address
    generalize d.read pb.state.store pb.address = result at here ⊢
    rcases result with ⟨_ | w, store⟩
    · exact ⟨.one here rfl, Eq.refl _⟩
    · have read : OnlyReads d pb.state { pb.state with store } := ⟨.one here rfl, Eq.refl _⟩
      exact read.trans
        (ih { pb with address := pb.address + c.ws, state := { pb.state with store } } (patch log pos w))

theorem playbackMultibyte_reads (pb : Playback σ) (log : LogEntry) :
    OnlyReads d pb.state (playbackMultibyte d c pb log).state := by
  rw [playbackMultibyte]
  have header := fetchAll_reads d c (if c.writeSize = .two then [2] else []) pb log
  generalize fetchAll d c pb log (if c.writeSize = .two then [2] else []) = result at header ⊢
  rcases result with ⟨_ | log', pb'⟩
  · exact header
  · simp only
    split
    case isTrue => exact header
    case isFalse =>
      have payload := fetchAll_reads d c (payloadPositions c log'.multibyteGetLength) pb' log'
      generalize fetchAll d c pb' log' (payloadPositions c log'.multibyteGetLength) = result at payload ⊢
      rcases result with ⟨_ | log'', pb''⟩
      · exact header.trans payload
      · exact header.trans payload

theorem playbackEntry_reads (pb : Playback σ) (log : LogEntry) :
    OnlyReads d pb.state (playbackEntry d c pb log).state := by
  rw [playbackEntry]
  cases log.getType with
  | none => exact .rfl
  | some type =>
    cases type with
    | multibyte => exact playbackMultibyte_reads d c pb log
    | optimized64 =>
      simp only [playbackOptimized64]
      split_ifs <;> exact .rfl
    | word01 =>
      simp only [playbackWord01]
      split_ifs <;> exact .rfl

theorem playbackStep_reads (pb : Playback σ) : OnlyReads d pb.state (playbackStep d c pb).state := by
  rw [playbackStep]
  have here := Call.read (d := d) pb.state.store pb.address
  generalize d.read pb.state.store pb.address = result at here ⊢
  rcases result with ⟨_ | w, store⟩
  · exact ⟨.one here rfl, Eq.refl _⟩
  · have read : OnlyReads d pb.state { pb.state with store } := ⟨.one here rfl, Eq.refl _⟩
    simp only
    split
    case isTrue => exact read
    case isFalse =>
      exact read.trans (playbackEntry_reads d c
        { pb with address := pb.address + c.ws, state := { pb.state with store } } (patch c.uninit 0 w))

theorem playbackLoop_reads (fuel : Nat) : ∀ pb : Playback σ,
    OnlyReads d pb.state (playbackLoop d c fuel pb).state := by
  induction fuel with
  | zero => exact fun pb => .rfl
  | succ fuel ih =>
    intro pb
    rw [playbackLoop]
    split
    case isTrue => exact .rfl
    case isFalse => exact (playbackStep_reads d c pb).trans (ih _)

/-! ## Consolidating and appending -/

theorem writeBulk_calls (values : Nat → UInt8) (n : Nat) : ∀ (store : σ) (a src : Nat),
    Calls d StoreCall.keepsLock store (writeBulk d c values store a src n).2 := by
  induction n with
  | zero => exact fun store a src => .refl store
  | succ n ih =>
    intro store a src
    rw [writeBulk]
    have here := Call.write (d := d) store a (slice values src c.ws)
    generalize d.write store a (slice values src c.ws) = result at here ⊢
    rcases result with ⟨_ | _, store'⟩
    · exact .one here rfl
    · exact .step here rfl (ih store' (a + c.ws) (src + c.ws))

/-- The two bulk writes of `wear_leveling_write_consolidated`. -/
theorem writeSummed_calls (cache : Nat → UInt8) (entry : LogEntry) (store : σ) :
    Calls d StoreCall.keepsLock store
      (match writeBulk d c cache store 0 0 (c.logicalSize / c.ws) with
      | (ok, store) =>
        if ok then writeBulk d c entry store c.logicalSize 0 (8 / c.ws) else (false, store)).2 := by
  have data := writeBulk_calls d c cache (c.logicalSize / c.ws) store 0 0
  generalize writeBulk d c cache store 0 0 (c.logicalSize / c.ws) = result at data ⊢
  rcases result with ⟨_ | _, store'⟩
  · exact data
  · exact data.trans (writeBulk_calls d c entry (8 / c.ws) store' c.logicalSize 0)

/-- An unlocked store stays unlocked, with no call that moves the lock. -/
def StaysUnlocked (d : BackingStore σ) (s s' : State σ) : Prop :=
  Calls d StoreCall.keepsLock s.store s'.store ∧ s'.unlocked = true

variable {d c}

theorem StaysUnlocked.of_reads {s s' : State σ} (hu : s.unlocked = true) (h : OnlyReads d s s') :
    StaysUnlocked d s s' :=
  ⟨h.1.mono fun _ => StoreCall.keepsLock_of_reads, h.2.trans hu⟩

theorem StaysUnlocked.trans {s s' s'' : State σ} (h : StaysUnlocked d s s') (h' : StaysUnlocked d s' s'') :
    StaysUnlocked d s s'' :=
  ⟨h.1.trans h'.1, h'.2⟩

theorem unlock_of_unlocked {s : State σ} (hu : s.unlocked = true) : unlock d s = (.unchanged, s) := by
  rw [unlock, if_pos hu]

/-- Unlocking, writing, and locking if it was this call that unlocked. -/
theorem writeConsolidated_cases (s : State σ) :
    ∃ store, Calls d StoreCall.keepsLock (unlock d s).2.store store ∧
      (writeConsolidated d c s).2 =
        if (unlock d s).1 = .success then (lock d { (unlock d s).2 with store }).2
        else { (unlock d s).2 with store } := by
  rw [writeConsolidated]
  generalize unlock d s = result
  obtain ⟨lockStatus, r⟩ := result
  exact ⟨_, writeSummed_calls d c r.cache
    (patch c.uninit 0 (bytesOfUInt64 (fnv64aBuf (slice r.cache 0 c.logicalSize)))) r.store, rfl⟩

theorem writeConsolidated_unlocked {s : State σ} (hu : s.unlocked = true) :
    StaysUnlocked d s (writeConsolidated d c s).2 := by
  obtain ⟨store, written, after⟩ := writeConsolidated_cases (d := d) (c := c) s
  rw [unlock_of_unlocked hu, if_neg (by simp)] at after
  rw [unlock_of_unlocked hu] at written
  rw [after]
  exact ⟨written, hu⟩

theorem consolidateForce_unlocked {s : State σ} (hu : s.unlocked = true) :
    StaysUnlocked d s (consolidateForce d c s).2 := by
  rw [consolidateForce]
  have here := Call.erase (d := d) s.store
  generalize d.erase s.store = result at here ⊢
  rcases result with ⟨_ | _, store⟩
  · exact ⟨.one here rfl, hu⟩
  · have erased : StaysUnlocked d s { s with store } := ⟨.one here rfl, hu⟩
    exact erased.trans (writeConsolidated_unlocked (s := { s with store }) hu)

theorem consolidateIfNeeded_unlocked {s : State σ} (hu : s.unlocked = true) :
    StaysUnlocked d s (consolidateIfNeeded d c s).2 := by
  rw [consolidateIfNeeded]
  split
  · exact consolidateForce_unlocked hu
  · exact ⟨.refl _, hu⟩

theorem appendRaw_unlocked {s : State σ} (hu : s.unlocked = true) (value : Word) :
    StaysUnlocked d s (appendRaw d c s value).2 := by
  rw [appendRaw]
  have here := Call.write (d := d) s.store s.writeAddress value
  generalize d.write s.store s.writeAddress value = result at here ⊢
  rcases result with ⟨_ | _, store⟩
  · exact ⟨.one here rfl, hu⟩
  · have written : StaysUnlocked d s { s with store, writeAddress := s.writeAddress + c.ws } :=
      ⟨.one here rfl, hu⟩
    exact written.trans (consolidateIfNeeded_unlocked hu)

theorem appendAll_unlocked (words : List Word) : ∀ {s : State σ}, s.unlocked = true →
    StaysUnlocked d s (appendAll d c s words).2 := by
  induction words with
  | nil => exact fun hu => ⟨.refl _, hu⟩
  | cons value rest ih =>
    intro s hu
    have here := appendRaw_unlocked (d := d) (c := c) hu value
    rw [appendAll]
    generalize appendRaw d c s value = result at here ⊢
    rcases result with ⟨_ | _ | _, s'⟩
    · exact here
    · exact here.trans (ih here.2)
    · exact here

theorem writeRawLoop_unlocked (fuel : Nat) : ∀ {s : State σ} (address : Nat) (p : List UInt8) (status : Status),
    s.unlocked = true → StaysUnlocked d s (writeRawLoop d c fuel s address p status).2 := by
  induction fuel with
  | zero => exact fun _ _ _ hu => ⟨.refl _, hu⟩
  | succ fuel ih =>
    intro s address p status hu
    rw [writeRawLoop]
    split
    · exact ⟨.refl _, hu⟩
    simp only
    split
    · have here := appendRaw_unlocked (d := d) (c := c) hu
        ((LogEntry.makeWord01 address ((p.getD 1 0).toNat <<< 8 ||| (p.getD 0 0).toNat)).raw16 0)
      generalize appendRaw d c s _ = result at here ⊢
      rcases result with ⟨_ | _ | _, s'⟩
      · exact here
      · exact here.trans (ih _ _ _ here.2)
      · exact here
    split
    · have here := appendRaw_unlocked (d := d) (c := c) hu
        ((LogEntry.makeOptimized64 address (p.getD 0 0)).raw16 0)
      generalize appendRaw d c s _ = result at here ⊢
      rcases result with ⟨_ | _ | _, s'⟩
      · exact here
      · exact here.trans (ih _ _ _ here.2)
      · exact here
    · have here (l : Nat) : StaysUnlocked d s (writeRawMultibyte d c s address (p.take l)).2 :=
        appendAll_unlocked _ hu
      have here := here (if LogEntry.multibyteMaxBytes ≤ p.length then LogEntry.multibyteMaxBytes else p.length)
      generalize writeRawMultibyte d c s address _ = result at here ⊢
      rcases result with ⟨_ | _ | _, s'⟩
      · exact here
      · exact here.trans (ih _ _ _ here.2)
      · exact here

theorem writeAndConsolidate_unlocked {s : State σ} (hu : s.unlocked = true) (address : Nat)
    (value : List UInt8) : StaysUnlocked d s (writeAndConsolidate d c s address value).2 := by
  have here := writeRawLoop_unlocked (d := d) (c := c) value.length address value .success hu
  rw [writeAndConsolidate, writeRaw]
  generalize writeRawLoop d c value.length s address value .success = result at here ⊢
  rcases result with ⟨_ | _ | _, s'⟩
  · exact here
  · exact here.trans (consolidateIfNeeded_unlocked here.2)
  · exact here

end Functions

/-! ## A driver that remembers its calls -/

/-- The driver `d` with the calls made of it, the last one first. -/
def logged (d : BackingStore σ) : BackingStore (σ × List StoreCall) where
  init s := ((d.init s.1).1, (d.init s.1).2, .init (d.init s.1).1 :: s.2)
  unlock s := ((d.unlock s.1).1, (d.unlock s.1).2, .unlock (d.unlock s.1).1 :: s.2)
  erase s := ((d.erase s.1).1, (d.erase s.1).2, .erase (d.erase s.1).1 :: s.2)
  write s a w := ((d.write s.1 a w).1, (d.write s.1 a w).2, .write a (d.write s.1 a w).1 :: s.2)
  lock s := ((d.lock s.1).1, (d.lock s.1).2, .lock (d.lock s.1).1 :: s.2)
  read s a := ((d.read s.1 a).1, (d.read s.1 a).2, .read a (d.read s.1 a).1.isSome :: s.2)

/-- Every call meets `p` after the calls made before it. -/
def Each (p : List StoreCall → StoreCall → Prop) : List StoreCall → Prop
  | [] => True
  | call :: before => p before call ∧ Each p before

instance Each.decidable {p : List StoreCall → StoreCall → Prop} [∀ before call, Decidable (p before call)] :
    DecidablePred (Each p)
  | [] => isTrue trivial
  | call :: before =>
    haveI := Each.decidable (p := p) before
    inferInstanceAs (Decidable (p before call ∧ Each p before))

theorem Each.before {p : List StoreCall → StoreCall → Prop} {new before : List StoreCall}
    (h : Each p (new ++ before)) : Each p before := by
  induction new with
  | nil => exact h
  | cons call new ih => exact ih h.2

section Log

variable {d : BackingStore σ} {s t : σ × List StoreCall} {allowed : StoreCall → Bool}

theorem logged_call {call : StoreCall} (h : Call (logged d) call s t) : t.2 = call :: s.2 := by
  cases h <;> rfl

/-- The log grows by the calls made. -/
theorem Calls.log (h : Calls (logged d) allowed s t) :
    ∃ new, t.2 = new ++ s.2 ∧ ∀ call ∈ new, allowed call = true := by
  induction h with
  | refl s => exact ⟨[], rfl, by simp⟩
  | @step s t u call here ok _ ih =>
    obtain ⟨new, e, all⟩ := ih
    refine ⟨new ++ [call], ?_, ?_⟩
    · rw [e, logged_call here, List.append_assoc, List.singleton_append]
    · simpa [or_imp, forall_and, ok] using all

end Log

end QmkFirmware.WearLeveling
