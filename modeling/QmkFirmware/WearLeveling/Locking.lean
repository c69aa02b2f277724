import QmkFirmware.WearLeveling.Calls
import QmkFirmware.WearLeveling.Acknowledge
import QmkFirmware.Lib.Run

/-!
# The lock of the backing store

Whether every erase and every write of a run finds the store unlocked, and
whether the store is locked when an operation is over. A `Session` is what one
operation does about the lock, with the calls it may make while the store is
locked. `wear_leveling_init` consolidates a damaged or full log without
unlocking the store first; nothing else breaks the discipline.
-/

namespace QmkFirmware.WearLeveling
open Lib

/-- Whether the store is unlocked after these calls, the last one first. -/
def unlockedAfter : List StoreCall → Bool
  | [] => false
  | .unlock true :: _ => true
  | .lock true :: _ => false
  | _ :: before => unlockedAfter before

/-- The store is erased and written only while it is unlocked. -/
def Guarded : List StoreCall → Prop :=
  Each fun before call => call.changes = true → unlockedAfter before = true

instance : DecidablePred Guarded := inferInstanceAs (DecidablePred (Each _))

section Session

variable {σ : Type}

/-- One operation: it may work on an unlocked store, leave the lock alone, be refused
the unlocking, or unlock, work and lock. -/
inductive Session (d : BackingStore σ) (whileLocked : StoreCall → Bool) (s s' : State σ) : Prop where
  | unlocked (open_ : s.unlocked = true) (work : StaysUnlocked d s s')
  | quiet (shut : s.unlocked = false) (calls : Calls d whileLocked s.store s'.store)
      (shut' : s'.unlocked = false)
  | refused {t : σ} (shut : s.unlocked = false) (before : Calls d whileLocked s.store t)
      (no : (d.unlock t).1 = false) (after : Calls d whileLocked (d.unlock t).2 s'.store)
      (shut' : s'.unlocked = false)
  | locked {t u : σ} (shut : s.unlocked = false) (before : Calls d whileLocked s.store t)
      (yes : (d.unlock t).1 = true) (work : Calls d StoreCall.keepsLock (d.unlock t).2 u)
      (store : s'.store = (d.lock u).2) (flag : s'.unlocked = !(d.lock u).1)

variable {d : BackingStore σ} {c : Config} {whileLocked whileLocked' : StoreCall → Bool} {s s' : State σ}

theorem Session.mono (weaken : ∀ call, whileLocked call = true → whileLocked' call = true)
    (h : Session d whileLocked s s') : Session d whileLocked' s s' := by
  cases h with
  | unlocked open_ work => exact .unlocked open_ work
  | quiet shut calls shut' => exact .quiet shut (calls.mono weaken) shut'
  | refused shut before no after shut' => exact .refused shut (before.mono weaken) no (after.mono weaken) shut'
  | locked shut before yes work store flag => exact .locked shut (before.mono weaken) yes work store flag

theorem Session.of_eq {r : State σ} (h : Session d whileLocked s r) (store : s'.store = r.store)
    (flag : s'.unlocked = r.unlocked) : Session d whileLocked s s' := by
  cases h with
  | unlocked open_ work => exact .unlocked open_ ⟨store ▸ work.1, flag.trans work.2⟩
  | quiet shut calls shut' => exact .quiet shut (store ▸ calls) (flag.trans shut')
  | refused shut before no after shut' => exact .refused shut before no (store ▸ after) (flag.trans shut')
  | locked shut before yes work store' flag' =>
    exact .locked shut before yes work (store.trans store') (flag.trans flag')

theorem Session.of_reads (h : OnlyReads d s s') : Session d StoreCall.reads s s' := by
  cases hu : s.unlocked with
  | true => exact .unlocked hu (.of_reads hu h)
  | false => exact .quiet hu h.1 (h.2.trans hu)

/-- What came before an operation's unlocking belongs to it. -/
theorem Session.after_reads {r : State σ} (h : OnlyReads d s r) (h' : Session d whileLocked r s')
    (allows : ∀ call, call.reads = true → whileLocked call = true) : Session d whileLocked s s' := by
  have calls := h.1.mono allows
  cases h' with
  | unlocked open_ work =>
    have hu : s.unlocked = true := h.2.symm.trans open_
    exact .unlocked hu ((StaysUnlocked.of_reads hu h).trans work)
  | quiet shut rest shut' => exact .quiet (h.2.symm.trans shut) (calls.trans rest) shut'
  | refused shut before no after shut' =>
    exact .refused (h.2.symm.trans shut) (calls.trans before) no after shut'
  | locked shut before yes work store flag =>
    exact .locked (h.2.symm.trans shut) (calls.trans before) yes work store flag

theorem Session.all (h : Session d whileLocked s s') : Calls d (fun _ => true) s.store s'.store := by
  cases h with
  | unlocked open_ work => exact work.1.mono fun _ _ => rfl
  | quiet shut calls shut' => exact calls.mono fun _ _ => rfl
  | @refused t shut before no after shut' =>
    exact (before.mono fun _ _ => rfl).trans (.step (.unlock t) rfl (after.mono fun _ _ => rfl))
  | @locked t u shut before yes work store flag =>
    rw [store]
    exact (before.mono fun _ _ => rfl).trans
      (.step (.unlock t) rfl ((work.mono fun _ _ => rfl).trans (.one (.lock u) rfl)))

/-! ## The operations -/

theorem unlock_of_locked (hu : s.unlocked = false) :
    unlock d s = (if (d.unlock s.store).1 then .success else .failure,
      { s with store := (d.unlock s.store).2, unlocked := (d.unlock s.store).1 }) := by
  rw [unlock, if_neg (by simp [hu])]
  rcases d.unlock s.store with ⟨_ | _, store⟩
  · simp [hu]
  · rfl

theorem lock_of_unlocked (hu : s.unlocked = true) :
    lock d s = (if (d.lock s.store).1 then .success else .failure,
      { s with store := (d.lock s.store).2, unlocked := !(d.lock s.store).1 }) := by
  rw [lock, if_neg (by simp [hu])]
  rcases d.lock s.store with ⟨_ | _, store⟩
  · simp [hu]
  · rfl

theorem lock_of_locked (hu : s.unlocked = false) : lock d s = (.unchanged, s) := by
  rw [lock, if_pos (by simp [hu])]

theorem write_session (s : State σ) (address : Nat) (value : List UInt8) :
    Session d StoreCall.reads s (write d c s address value).2 := by
  rw [write]
  split
  · exact .of_reads .rfl
  split
  · exact .of_reads .rfl
  refine Session.after_reads (r := { s with cache := patch s.cache address value }) ⟨.refl _, rfl⟩ ?_ fun _ h => h
  generalize ({ s with cache := patch s.cache address value } : State σ) = r
  rcases Bool.eq_false_or_eq_true r.unlocked with hu | hu
  · have work := writeAndConsolidate_unlocked (d := d) (c := c) hu address value
    rw [unlock_of_unlocked hu]
    exact .unlocked hu work
  rw [unlock_of_locked hu]
  rcases Bool.eq_false_or_eq_true (d.unlock r.store).1 with yes | no
  · have work := writeAndConsolidate_unlocked (d := d) (c := c)
      (s := { r with store := (d.unlock r.store).2, unlocked := true }) rfl address value
    simp only [yes, if_true]
    generalize writeAndConsolidate d c { r with store := (d.unlock r.store).2, unlocked := true } address value =
      result at work ⊢
    obtain ⟨status, t⟩ := result
    rw [lock_of_unlocked work.2]
    refine .locked (u := t.store) hu (.refl _) yes work.1 ?_ ?_
    · cases (d.lock t.store).1 <;> rfl
    · cases (d.lock t.store).1 <;> rfl
  · simp only [no, Bool.false_eq_true, if_false]
    rw [lock_of_locked (s := { r with store := (d.unlock r.store).2, unlocked := false }) rfl]
    exact .refused hu (.refl _) no (.refl _) rfl

theorem erase_session (s : State σ) : Session d StoreCall.reads s (erase d c s).2 := by
  rw [erase]
  rcases Bool.eq_false_or_eq_true s.unlocked with hu | hu
  · have here := Call.erase (d := d) s.store
    rw [unlock_of_unlocked hu]
    exact .unlocked hu ⟨.one here rfl, hu⟩
  rw [unlock_of_locked hu]
  rcases Bool.eq_false_or_eq_true (d.unlock s.store).1 with yes | no
  · have here := Call.erase (d := d) (d.unlock s.store).2
    simp only [yes, if_true]
    rw [lock_of_unlocked (s := clearCache c _) rfl]
    exact .locked hu (.refl _) yes (.one here rfl) rfl rfl
  · simp only [no, Bool.false_eq_true, if_false]
    rw [lock_of_locked (s := { s with store := (d.unlock s.store).2, unlocked := false }) rfl]
    exact .refused hu (.refl _) no (.refl _) rfl

/-- `wear_leveling_init` comes to `wear_leveling_consolidate_force`: the log is damaged,
cannot be read, or is full. -/
def initConsolidates (d : BackingStore σ) (c : Config) (s : State σ) : Bool :=
  match d.init s.store with
  | (false, _) => false
  | (true, store) =>
    match readConsolidated d c { clearCache c s with store } with
    | (.failed, _) => false
    | (_, s) =>
      let pb := playbackLoop d c c.backingSize ⟨c.logBase, false, .success, s⟩
      decide (pb.status = .failed ∨ c.backingSize ≤ pb.address)

/-- The playback of the log consolidates, or it only reads. -/
theorem playbackLog_cases (s : State σ) :
    let pb := playbackLoop d c c.backingSize ⟨c.logBase, false, .success, s⟩
    (¬ (pb.status = .failed ∨ c.backingSize ≤ pb.address) ∧ OnlyReads d s (playbackLog d c s).2) ∨
    ((pb.status = .failed ∨ c.backingSize ≤ pb.address) ∧ ∃ r, OnlyReads d s r ∧
      playbackLog d c s = consolidateForce d c r) := by
  intro pb
  have replay : OnlyReads d s { pb.state with writeAddress := pb.address } :=
    playbackLoop_reads d c c.backingSize ⟨c.logBase, false, .success, s⟩
  have unfolded : playbackLog d c s =
      if pb.status = .failed then consolidateForce d c { pb.state with writeAddress := pb.address }
      else consolidateIfNeeded d c { pb.state with writeAddress := pb.address } := rfl
  by_cases bad : pb.status = .failed
  · rw [if_pos bad] at unfolded
    exact Or.inr ⟨Or.inl bad, _, replay, unfolded⟩
  rw [if_neg bad, consolidateIfNeeded] at unfolded
  by_cases full : c.backingSize ≤ pb.address
  · rw [if_pos full] at unfolded
    exact Or.inr ⟨Or.inr full, _, replay, unfolded⟩
  · rw [if_neg full] at unfolded
    refine Or.inl ⟨by simp [bad, full], ?_⟩
    rw [unfolded]
    exact replay

/-- What `wear_leveling_init` does: it reads, and consolidates if it has to. -/
theorem init_cases (s : State σ) :
    (initConsolidates d c s = false ∧ OnlyReads d s (init d c s).2) ∨
    (initConsolidates d c s = true ∧ ∃ r, OnlyReads d s r ∧
      (init d c s).2.store = (consolidateForce d c r).2.store ∧
      (init d c s).2.unlocked = (consolidateForce d c r).2.unlocked) := by
  have start := Call.init (d := d) s.store
  rw [init, initConsolidates]
  simp only
  rw [show (clearCache c s).store = s.store from rfl]
  generalize d.init s.store = result at start ⊢
  rcases result with ⟨_ | _, store⟩
  · exact Or.inl ⟨rfl, .one start rfl, rfl⟩
  have started : OnlyReads d s { clearCache c s with store } := ⟨.one start rfl, rfl⟩
  have data := readConsolidated_reads d c { clearCache c s with store }
  simp only
  generalize readConsolidated d c { clearCache c s with store } = result at data ⊢
  obtain ⟨status, s₁⟩ := result
  have read := started.trans data
  cases status with
  | failed => exact Or.inl ⟨rfl, read⟩
  | success | consolidated =>
    -- a failure that the playback reports clears the cache, which is no call
    rcases playbackLog_cases (d := d) (c := c) s₁ with ⟨quiet, replay⟩ | ⟨consolidates, r, replay, e⟩
    · have replayed := read.trans replay
      refine Or.inl ⟨decide_eq_false quiet, ?_⟩
      simp only
      generalize playbackLog d c s₁ = result at replayed ⊢
      rcases result with ⟨_ | _ | _, s₂⟩ <;> exact ⟨replayed.1, replayed.2⟩
    · refine Or.inr ⟨decide_eq_true consolidates, r, read.trans replay, ?_⟩
      rw [← e]
      simp only
      generalize playbackLog d c s₁ = result
      rcases result with ⟨_ | _ | _, s₂⟩ <;> exact ⟨rfl, rfl⟩

/-- Consolidating a locked store erases it first. -/
theorem consolidateForce_session (hu : s.unlocked = false) :
    Session d StoreCall.keepsLock s (consolidateForce d c s).2 ∧
      Calls d (fun _ => true) (d.erase s.store).2 (consolidateForce d c s).2.store := by
  have here := Call.erase (d := d) s.store
  rw [consolidateForce]
  generalize d.erase s.store = result at here ⊢
  rcases result with ⟨_ | _, store⟩
  · exact ⟨.quiet hu (.one here rfl) hu, .refl _⟩
  simp only
  have unlocking := Call.unlock (d := d) store
  obtain ⟨store', written, after⟩ := writeConsolidated_cases (d := d) (c := c) { s with store }
  rw [unlock_of_locked (s := { s with store }) hu] at written after
  simp only at written after ⊢
  rw [after]
  rcases Bool.eq_false_or_eq_true (d.unlock store).1 with yes | no
  · have locking := Call.lock (d := d) store'
    simp only [yes, if_true]
    rw [lock_of_unlocked rfl]
    refine ⟨.locked hu (.one here rfl) yes written rfl rfl, ?_⟩
    exact .step unlocking rfl ((written.mono fun _ _ => rfl).trans (.one locking rfl))
  · simp only [no, Bool.false_eq_true, if_false, reduceCtorEq]
    exact ⟨.refused hu (.one here rfl) no written rfl, .step unlocking rfl (written.mono fun _ _ => rfl)⟩

theorem step_session (s : State σ) (op : Op) : Session d StoreCall.keepsLock s (op.step d c s) := by
  have reads := fun call => @StoreCall.keepsLock_of_reads call
  cases op with
  | init =>
    rcases init_cases (d := d) (c := c) s with ⟨-, h⟩ | ⟨-, r, before, store, flag⟩
    · exact (Session.of_reads h).mono reads
    · refine Session.after_reads before ?_ reads
      rcases Bool.eq_false_or_eq_true r.unlocked with hu | hu
      · have work := consolidateForce_unlocked (d := d) (c := c) hu
        refine .unlocked hu ⟨?_, flag.trans work.2⟩
        rw [Op.step, store]
        exact work.1
      · exact (consolidateForce_session hu).1.of_eq store flag
  | write address value => exact (write_session s address value).mono reads
  | read address length => exact (Session.of_reads .rfl).mono reads
  | erase => exact (erase_session s).mono reads

/-- Unless `wear_leveling_init` has to consolidate a locked store, a locked store is only read. -/
theorem step_session_reads {op : Op}
    (h : op = .init → initConsolidates d c s = true → s.unlocked = true) :
    Session d StoreCall.reads s (op.step d c s) := by
  cases op with
  | init =>
    rcases init_cases (d := d) (c := c) s with ⟨-, quiet⟩ | ⟨consolidates, r, before, store, flag⟩
    · exact .of_reads quiet
    · have hu := h rfl consolidates
      have work := consolidateForce_unlocked (d := d) (c := c) (before.2.trans hu)
      refine .unlocked hu ((StaysUnlocked.of_reads hu before).trans ⟨?_, flag.trans work.2⟩)
      rw [Op.step, store]
      exact work.1
  | write address value => exact write_session s address value
  | read address length => exact .of_reads .rfl
  | erase => exact erase_session s

end Session

/-! ## The discipline of a run -/

section Log

variable {new before : List StoreCall}

theorem unlockedAfter_append (h : ∀ call ∈ new, call.keepsLock = true) :
    unlockedAfter (new ++ before) = unlockedAfter before := by
  induction new with
  | nil => rfl
  | cons call new ih =>
    have rest := ih fun call hc => h call (List.mem_cons_of_mem _ hc)
    have here := h call List.mem_cons_self
    cases call <;> simp_all [unlockedAfter, StoreCall.keepsLock]

theorem guarded_of_reads (h : ∀ call ∈ new, call.reads = true) (g : Guarded before) : Guarded (new ++ before) := by
  induction new with
  | nil => exact g
  | cons call new ih =>
    refine ⟨fun changes => ?_, ih fun call hc => h call (List.mem_cons_of_mem _ hc)⟩
    have here := h call List.mem_cons_self
    cases call <;> simp_all [StoreCall.reads, StoreCall.changes]

theorem guarded_of_unlocked (h : ∀ call ∈ new, call.keepsLock = true) (hu : unlockedAfter before = true)
    (g : Guarded before) : Guarded (new ++ before) := by
  induction new with
  | nil => exact g
  | cons call new ih =>
    have rest := fun call hc => h call (List.mem_cons_of_mem _ hc)
    exact ⟨fun _ => (unlockedAfter_append rest).trans hu, ih rest⟩

end Log

section Run

variable {σ : Type} {d : BackingStore σ} {c : Config} {s s' : State (σ × List StoreCall)}
  {whileLocked : StoreCall → Bool}

/-- The flag of the code tells the state of the store. -/
def Truthful (s : State (σ × List StoreCall)) : Prop := s.unlocked = unlockedAfter s.store.2

/-- The calls an operation made, the last one first. -/
def madeCalls (s s' : State (σ × List StoreCall)) : List StoreCall :=
  s'.store.2.take (s'.store.2.length - s.store.2.length)

theorem madeCalls_of_append {new : List StoreCall} (h : s'.store.2 = new ++ s.store.2) :
    madeCalls s s' = new := by
  rw [madeCalls, h, List.length_append, Nat.add_sub_cancel, List.take_left']
  rfl

/-- If the calls that lock the store succeed, it is locked when the operation is over. -/
def LocksAgain (d : BackingStore σ) (c : Config) (s : State (σ × List StoreCall)) (op : Op) : Prop :=
  (∀ call ∈ madeCalls s (op.step (logged d) c s), call ≠ .lock false) →
    unlockedAfter (op.step (logged d) c s).store.2 = false

/-- The calls of one operation: the flag stays truthful, an unlocked store is left
unlocked, and a locked one is locked again or refused to be. -/
theorem Session.calls (h : Session (logged d) StoreCall.keepsLock s s') (truthful : Truthful s) :
    ∃ new, s'.store.2 = new ++ s.store.2 ∧ Truthful s' ∧
      (s.unlocked = true → s'.unlocked = true ∧ ∀ call ∈ new, call.keepsLock = true) ∧
      (s.unlocked = false → s'.unlocked = false ∨ .lock false ∈ new) := by
  rw [Truthful] at truthful ⊢
  cases h with
  | unlocked open_ work =>
    obtain ⟨new, e, quiet⟩ := work.1.log
    refine ⟨new, e, ?_, fun _ => ⟨work.2, quiet⟩, by simp [open_]⟩
    rw [e, unlockedAfter_append quiet, ← truthful, open_, work.2]
  | quiet shut calls shut' =>
    obtain ⟨new, e, quiet⟩ := calls.log
    refine ⟨new, e, ?_, by simp [shut], fun _ => Or.inl shut'⟩
    rw [e, unlockedAfter_append quiet, ← truthful, shut, shut']
  | @refused t shut before no after shut' =>
    obtain ⟨new, e, quiet⟩ := before.log
    obtain ⟨new', e', quiet'⟩ := after.log
    have noted : ((logged d).unlock t).2.2 = .unlock false :: t.2 := by
      rw [← no]; rfl
    refine ⟨new' ++ .unlock false :: new, ?_, ?_, by simp [shut], fun _ => Or.inl shut'⟩
    · rw [e', noted, e, List.append_assoc, List.cons_append]
    · rw [e', unlockedAfter_append quiet', noted, unlockedAfter, e, unlockedAfter_append quiet, ← truthful, shut,
        shut']
      all_goals simp
  | @locked t u shut before yes work store flag =>
    obtain ⟨new, e, quiet⟩ := before.log
    obtain ⟨new', e', quiet'⟩ := work.log
    have unlocking : ((logged d).unlock t).2.2 = .unlock true :: t.2 := by
      rw [← yes]; rfl
    have locking : ((logged d).lock u).2.2 = .lock ((logged d).lock u).1 :: u.2 := rfl
    have opened : unlockedAfter u.2 = true := by rw [e', unlockedAfter_append quiet', unlocking, unlockedAfter]
    refine ⟨.lock ((logged d).lock u).1 :: (new' ++ .unlock true :: new), ?_, ?_, by simp [shut], fun _ => ?_⟩
    · rw [store, locking, e', unlocking, e, List.cons_append, List.append_assoc, List.cons_append]
    · rw [store, locking, flag]
      cases ((logged d).lock u).1 with
      | true => rfl
      | false => exact opened.symm
    · rw [flag]
      cases ((logged d).lock u).1 with
      | true => exact Or.inl rfl
      | false => exact Or.inr List.mem_cons_self

/-- An operation that only reads while the store is locked keeps the discipline. -/
theorem Session.guarded (h : Session (logged d) StoreCall.reads s s') (truthful : Truthful s)
    (g : Guarded s.store.2) : Guarded s'.store.2 := by
  cases h with
  | unlocked open_ work =>
    obtain ⟨new, e, quiet⟩ := work.1.log
    rw [e]
    exact guarded_of_unlocked quiet (truthful.symm.trans open_) g
  | quiet shut calls shut' =>
    obtain ⟨new, e, reads⟩ := calls.log
    rw [e]
    exact guarded_of_reads reads g
  | @refused t shut before no after shut' =>
    obtain ⟨new, e, reads⟩ := before.log
    obtain ⟨new', e', reads'⟩ := after.log
    rw [e']
    refine guarded_of_reads reads' ⟨fun h => (nomatch h), ?_⟩
    rw [e]
    exact guarded_of_reads reads g
  | @locked t u shut before yes work store flag =>
    obtain ⟨new, e, reads⟩ := before.log
    obtain ⟨new', e', quiet'⟩ := work.log
    have unlocking : ((logged d).unlock t).2.2 = .unlock true :: t.2 := by
      rw [← yes]; rfl
    rw [store]
    refine ⟨fun h => (nomatch h), ?_⟩
    rw [e', unlocking]
    refine guarded_of_unlocked quiet' rfl ⟨fun h => (nomatch h), ?_⟩
    rw [e]
    exact guarded_of_reads reads g

theorem truthful_step (truthful : Truthful s) (op : Op) : Truthful (op.step (logged d) c s) := by
  obtain ⟨new, -, kept, -⟩ := (step_session (d := logged d) (c := c) s op).calls truthful
  exact kept

/-- An operation locks the store again exactly if it found it locked. -/
theorem locksAgain_iff (truthful : Truthful s) (op : Op) : LocksAgain d c s op ↔ s.unlocked = false := by
  obtain ⟨new, e, kept, open_, shut⟩ := (step_session (d := logged d) (c := c) s op).calls truthful
  rw [LocksAgain, madeCalls_of_append e, ← kept]
  constructor
  · intro again
    by_contra hu
    obtain ⟨still, quiet⟩ := open_ (by simpa using hu)
    have := again fun call hc locks => by simpa [locks, StoreCall.keepsLock] using quiet call hc
    simp [still] at this
  · intro hu succeed
    rcases shut hu with locked | failed
    · exact locked
    · exact absurd rfl (succeed _ failed)

/-- Consolidating a locked store breaks the discipline, and nothing mends it. -/
theorem not_guarded_of_consolidates (truthful : Truthful s) (consolidates : initConsolidates (logged d) c s = true)
    (hu : s.unlocked = false) : ¬ Guarded (init (logged d) c s).2.store.2 := by
  rcases init_cases (d := logged d) (c := c) s with ⟨quiet, -⟩ | ⟨-, r, before, store, -⟩
  · simp [quiet] at consolidates
  obtain ⟨new, e, reads⟩ := before.1.log
  obtain ⟨more, e', -⟩ := (consolidateForce_session (before.2.trans hu)).2.log
  rw [store, e']
  intro g
  have erased := (Each.before g).1 rfl
  rw [e, unlockedAfter_append fun call hc => StoreCall.keepsLock_of_reads (reads call hc), ← truthful, hu] at erased
  cases erased

/-- Every erase and every write of a run finds the store unlocked if and only if no
`wear_leveling_init` has to consolidate a locked store; every operation whose lock
calls succeed locks the store again if and only if every operation finds it locked. -/
theorem lock_discipline (d : BackingStore σ) (c : Config) (store : σ) (ops : List Op) :
    (Guarded (run (logged d) c (State.start (store, [])) ops).store.2 ↔
      Along (Op.step (logged d) c)
        (fun s op => op = .init → initConsolidates (logged d) c s = true → s.unlocked = true)
        (State.start (store, [])) ops) ∧
    (Along (Op.step (logged d) c) (LocksAgain d c) (State.start (store, [])) ops ↔
      Along (Op.step (logged d) c) (fun s _ => s.unlocked = false) (State.start (store, [])) ops) := by
  have start : Truthful (State.start (store, [])) := rfl
  constructor
  · refine Along.iff_good (fun s => Truthful s ∧ Guarded s.store.2) (fun s => Guarded s.store.2)
      (fun s h => h.2) (fun s op h allowed => ?_) (fun s op h violated => ?_) (fun s op g => ?_) ⟨start, trivial⟩
    · exact ⟨truthful_step h.1 op, (step_session_reads allowed).guarded h.1 h.2⟩
    · push Not at violated
      obtain ⟨rfl, consolidates, shut⟩ := violated
      exact not_guarded_of_consolidates h.1 consolidates (by simpa using shut)
    · obtain ⟨new, e, -⟩ := (step_session (d := logged d) (c := c) s op).all.log
      rw [e] at g
      exact g.before
  · constructor
    · exact Along.each Truthful (fun s op h again => ⟨truthful_step h op, (locksAgain_iff h op).1 again⟩) start
    · exact Along.each Truthful (fun s op h shut => ⟨truthful_step h op, (locksAgain_iff h op).2 shut⟩) start

end Run

instance {σ : Type} (d : BackingStore σ) (c : Config) (s : State (σ × List StoreCall)) (op : Op) :
    Decidable (LocksAgain d c s op) :=
  inferInstanceAs (Decidable (_ → _))

/-- A store whose log starts with a word that is no entry: the start erases it locked. -/
def damagedLog : Nat → UInt8 := fun i => if i = 24 then 0xff else 0

/-- Unlocking and one write succeed, then the store refuses once to be locked. -/
def lockFails : Flaky := ⟨fun _ => 0, [none, none, some 0]⟩

theorem init_erases_locked :
    ¬ Guarded (run (logged (memStore smallConfig)) smallConfig (State.start (damagedLog, [])) [.init]).store.2 ∧
    ¬ Along (Op.step (logged (flakyStore smallConfig)) smallConfig) (LocksAgain (flakyStore smallConfig) smallConfig)
      (State.start (lockFails, [])) [.init, .write 0 [1], .write 1 [2]] := by
  decide +kernel

end QmkFirmware.WearLeveling
