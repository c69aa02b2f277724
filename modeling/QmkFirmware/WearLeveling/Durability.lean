import QmkFirmware.WearLeveling.Writer

/-!
# Durability over whole runs

The logical data is an array of bytes: writing patches it, erasing zeroes it.
`Synced` relates the driver's state to the array: the cache holds it and so does
the store, and every public operation keeps this. A state in which neither
`wear_leveling_init` nor `wear_leveling_erase` was called yet is `Untouched`: its
write pointer is still the static zero, which is not a log position.
-/

namespace QmkFirmware.WearLeveling
open Lib

/-- A call of the public interface. -/
inductive Op where
  | init
  | write (address : Nat) (value : List UInt8)
  | read (address length : Nat)
  | erase
  deriving DecidableEq, Repr

namespace Op

/-- The arguments stay inside the logical data. -/
def InRange (c : Config) : Op → Prop
  | .init => True
  | .write address value => address + value.length ≤ c.logicalSize
  | .read address length => address + length ≤ c.logicalSize
  | .erase => True

instance (c : Config) : DecidablePred (InRange c)
  | .init => isTrue trivial
  | .write _ _ => inferInstanceAs (Decidable (_ ≤ _))
  | .read _ _ => inferInstanceAs (Decidable (_ ≤ _))
  | .erase => isTrue trivial

/-- The state a call leaves. -/
def step {σ : Type} (d : BackingStore σ) (c : Config) (s : State σ) : Op → State σ
  | .init => (WearLeveling.init d c s).2
  | .write address value => (WearLeveling.write d c s address value).2
  | .read _ _ => s
  | .erase => (WearLeveling.erase d c s).2

/-- What a call does to the logical data. -/
def logical (a : Nat → UInt8) : Op → Nat → UInt8
  | .init => a
  | .write address value => patch a address value
  | .read _ _ => a
  | .erase => fun _ => 0

end Op

/-- The state after a sequence of calls. -/
def run {σ : Type} (d : BackingStore σ) (c : Config) (s : State σ) (ops : List Op) : State σ :=
  ops.foldl (Op.step d c) s

/-- The logical data after a sequence of calls, from all zeros. -/
def logicalData (ops : List Op) : Nat → UInt8 := ops.foldl Op.logical fun _ => 0

/-- Every write comes after an initialisation or an erase. -/
def InitialisedFirst : List Op → Prop
  | [] => True
  | .init :: _ => True
  | .erase :: _ => True
  | .write _ _ :: _ => False
  | .read _ _ :: ops => InitialisedFirst ops

instance : DecidablePred InitialisedFirst := fun ops => by
  induction ops with
  | nil => exact isTrue trivial
  | cons op ops ih =>
    cases op with
    | init => exact isTrue trivial
    | erase => exact isTrue trivial
    | write => exact isFalse id
    | read => exact ih

section Invariant

variable {σ : Type} {c : Config} {d : BackingStore σ} {mem : σ → Nat → UInt8}

/-- Cache and store both hold the logical data `a`. -/
structure Synced (c : Config) (mem : σ → Nat → UInt8) (a : Nat → UInt8) (s : State σ) : Prop where
  cache : ∀ i, i < c.logicalSize → s.cache i = a i
  stored : Stored c (mem s.store) s.writeAddress s.cache

/-- Nothing happened to the cleared RAM and the erased store yet. -/
structure Untouched (c : Config) (mem : σ → Nat → UInt8) (s : State σ) : Prop where
  cache : ∀ i, i < c.logicalSize → s.cache i = 0
  erased : mem s.store = fun _ => 0

/-- A fresh initialisation on the store rebuilds the cache and the write pointer. -/
theorem Synced.reload (R : Reliable c d mem) {a : Nat → UInt8} {s : State σ} (h : Synced c mem a s)
    (r : State σ) :
    ∃ s', init d c { r with store := s.store } = (.success, s') ∧ mem s'.store = mem s.store ∧
      s'.writeAddress = s.writeAddress ∧ ∀ i, i < c.logicalSize → s'.cache i = s.cache i := by
  obtain ⟨s', e, m, w, -, hc⟩ := init_spec R.toReadable { r with store := s.store }
    (R.init s.store) h.stored
  exact ⟨s', e, m, w, hc⟩

theorem Untouched.reload (R : Reliable c d mem) (big : c.logBase < c.backingSize) {s : State σ}
    (h : Untouched c mem s) (r : State σ) :
    ∃ s', init d c { r with store := s.store } = (.success, s') ∧ mem s'.store = mem s.store ∧
      s'.writeAddress = c.logBase ∧ ∀ i, i < c.logicalSize → s'.cache i = 0 := by
  have st : Stored c (mem s.store) c.logBase fun _ => 0 := by
    rw [h.erased]; exact Stored.erased big
  obtain ⟨s', e, m, w, -, hc⟩ := init_spec R.toReadable { r with store := s.store }
    (R.init s.store) st
  exact ⟨s', e, m, w, hc⟩

theorem synced_init (R : Reliable c d mem) {a : Nat → UInt8} {s : State σ} (h : Synced c mem a s) :
    Synced c mem a (init d c s).2 := by
  obtain ⟨s', e, m, w, hc⟩ := h.reload R s
  have e' : init d c s = (.success, s') := e
  rw [e']
  exact ⟨fun i hi => (hc i hi).trans (h.cache i hi),
    (by rw [m, w]; exact h.stored.congr hc)⟩

theorem synced_init_of_untouched (R : Reliable c d mem) (big : c.logBase < c.backingSize) {s : State σ}
    (h : Untouched c mem s) : Synced c mem (fun _ => 0) (init d c s).2 := by
  obtain ⟨s', e, m, w, hc⟩ := h.reload R big s
  have e' : init d c s = (.success, s') := e
  rw [e']
  exact ⟨hc, by rw [m, w, h.erased]; exact (Stored.erased big).congr hc⟩

/-- Erasing needs nothing of the state before. -/
theorem synced_erase (R : Reliable c d mem) (big : c.logBase < c.backingSize) (s : State σ) :
    Synced c mem (fun _ => 0) (erase d c s).2 := by
  obtain ⟨ls, s₁, e₁, ne, -, -, -⟩ := unlock_spec R s
  obtain ⟨store, e₂, m₂⟩ := R.erase s₁.store
  obtain ⟨hc, hw, -, hs⟩ := clearCache_spec (c := c) ({ s₁ with store } : State σ)
  obtain ⟨ls', s₃, e₃, -, m₃, c₃, w₃⟩ := lock_spec R (clearCache c { s₁ with store })
  rw [hs, m₂] at m₃
  have clear : Synced c mem (fun _ => 0) (clearCache c { s₁ with store }) :=
    ⟨hc, by rw [hs, m₂, hw]; exact (Stored.erased big).congr hc⟩
  have locked : Synced c mem (fun _ => 0) s₃ :=
    ⟨by rw [c₃]; exact hc, by rw [m₃, w₃, hw, c₃]; exact (Stored.erased big).congr hc⟩
  unfold erase
  cases ls with
  | failure => exact absurd rfl ne
  | success => simpa [e₁, e₂, e₃] using locked
  | unchanged => simpa [e₁, e₂] using clear

theorem synced_write (R : Reliable c d mem) (size : c.logicalSize ≤ 2 ^ 19) {a : Nat → UInt8}
    {s : State σ} (h : Synced c mem a s) {address : Nat} {value : List UInt8}
    (range : address + value.length ≤ c.logicalSize) :
    Synced c mem (patch a address value) (write d c s address value).2 := by
  unfold write
  rw [if_neg (by omega)]
  split
  case isTrue same =>
    refine ⟨fun i hi => ?_, h.stored⟩
    rw [← patch_congr (h.cache i hi), same, patch_slice]
  case isFalse =>
    obtain ⟨ls, s₁, e₁, ne, m₁, c₁, w₁⟩ :=
      unlock_spec R ({ s with cache := patch s.cache address value } : State σ)
    obtain ⟨status, s₂, e₂, ok, c₂, st₂⟩ := writeRawLoop_spec R size value.length s₁ address value
      s.cache (Nat.le_refl _) range (by rw [m₁, w₁]; exact h.stored) (by rw [c₁]; exact fun _ _ => rfl)
    -- the write pointer is inside the log, so nothing is left to consolidate
    have done : writeAndConsolidate d c s₁ address value = (status, s₂) := by
      rw [writeAndConsolidate, writeRaw, e₂]
      cases status with
      | failed => exact absurd rfl ok
      | consolidated => rfl
      | success =>
        simp only [consolidateIfNeeded]
        rw [if_neg (by have := st₂.room; omega)]
    have after : Synced c mem (patch a address value) s₂ := by
      refine ⟨fun i hi => ?_, by rw [c₂]; exact st₂⟩
      rw [c₂, c₁]
      exact patch_congr (h.cache i hi) address value
    obtain ⟨ls', s₃, e₃, ne₃, m₃, c₃, w₃⟩ := lock_spec R s₂
    have locked : Synced c mem (patch a address value) s₃ :=
      ⟨by rw [c₃]; exact after.cache, by rw [m₃, w₃, c₃]; exact after.stored⟩
    cases ls with
    | failure => exact absurd rfl ne
    | unchanged => simpa [e₁, done] using after
    | success =>
      cases ls' with
      | failure => exact absurd rfl ne₃
      | success => simpa [e₁, done, e₃] using locked
      | unchanged => simpa [e₁, done, e₃] using locked

/-- One call keeps cache, store and logical data together. -/
theorem synced_step (R : Reliable c d mem) (big : c.logBase < c.backingSize)
    (size : c.logicalSize ≤ 2 ^ 19) {a : Nat → UInt8} {s : State σ} (h : Synced c mem a s) {op : Op}
    (range : op.InRange c) : Synced c mem (op.logical a) (op.step d c s) := by
  cases op with
  | init => exact synced_init R h
  | write address value => exact synced_write R size h range
  | read address length => exact h
  | erase => exact synced_erase R big s

/-- A run keeps them together. -/
theorem synced_run (R : Reliable c d mem) (big : c.logBase < c.backingSize)
    (size : c.logicalSize ≤ 2 ^ 19) (ops : List Op) : ∀ {a : Nat → UInt8} {s : State σ},
    Synced c mem a s → (∀ op ∈ ops, op.InRange c) →
    Synced c mem (ops.foldl Op.logical a) (run d c s ops) := by
  induction ops with
  | nil => exact fun h _ => h
  | cons op ops ih =>
    intro a s h range
    exact ih (synced_step R big size h (range op List.mem_cons_self))
      fun o ho => range o (List.mem_cons_of_mem _ ho)

/-- From the program's start: synced from the first initialisation or erase on. -/
theorem untouched_run (R : Reliable c d mem) (big : c.logBase < c.backingSize)
    (size : c.logicalSize ≤ 2 ^ 19) {s : State σ} (h : Untouched c mem s) (ops : List Op)
    (range : ∀ op ∈ ops, op.InRange c) (first : InitialisedFirst ops) :
    Synced c mem (logicalData ops) (run d c s ops) ∨
      (logicalData ops = (fun _ => 0) ∧ Untouched c mem (run d c s ops)) := by
  induction ops with
  | nil => exact Or.inr ⟨rfl, h⟩
  | cons op ops ih =>
    have rest : ∀ o ∈ ops, o.InRange c := fun o ho => range o (List.mem_cons_of_mem _ ho)
    cases op with
    | init => exact Or.inl (synced_run R big size ops (synced_init_of_untouched R big h) rest)
    | erase => exact Or.inl (synced_run R big size ops (synced_erase R big s) rest)
    | write address value => exact first.elim
    | read address length => exact ih rest first

/-- Before a write that is not too early the state is synced. -/
theorem synced_before_write (R : Reliable c d mem) (big : c.logBase < c.backingSize)
    (size : c.logicalSize ≤ 2 ^ 19) {s : State σ} (h : Untouched c mem s) (ops : List Op)
    (range : ∀ op ∈ ops, op.InRange c) {address : Nat} {value : List UInt8}
    (first : InitialisedFirst (ops ++ [.write address value])) :
    Synced c mem (logicalData ops) (run d c s ops) := by
  induction ops with
  | nil => exact first.elim
  | cons op ops ih =>
    have rest : ∀ o ∈ ops, o.InRange c := fun o ho => range o (List.mem_cons_of_mem _ ho)
    cases op with
    | init => exact synced_run R big size ops (synced_init_of_untouched R big h) rest
    | erase => exact synced_run R big size ops (synced_erase R big s) rest
    | write address value => exact first.elim
    | read address length => exact ih rest first

end Invariant

/-! ## The main result -/

/-- From an erased store on, after every run in which the writes come after an
initialisation or an erase, reads return the logical data and a fresh
initialisation of a controller with any RAM contents rebuilds the live cache. -/
theorem reads_and_reload_of_run {σ : Type} {c : Config} {d : BackingStore σ} {mem : σ → Nat → UInt8}
    (R : Reliable c d mem) (big : c.logicalSize + 8 < c.backingSize) (size : c.logicalSize ≤ 2 ^ 19)
    {store : σ} (erased : mem store = fun _ => 0) (ops : List Op) (range : ∀ op ∈ ops, op.InRange c)
    (first : InitialisedFirst ops) :
    (∀ address length, address + length ≤ c.logicalSize →
      read c (run d c (State.start store) ops) address length =
        (.success, slice (logicalData ops) address length)) ∧
    ∀ ram : State σ, ∃ s',
      init d c { ram with store := (run d c (State.start store) ops).store } = (.success, s') ∧
      ∀ i, i < c.logicalSize → s'.cache i = (run d c (State.start store) ops).cache i := by
  have start : Untouched c mem (State.start store) := ⟨fun _ _ => rfl, erased⟩
  rcases untouched_run R big size start ops range first with h | ⟨zero, h⟩
  · refine ⟨fun address length hl => ?_, fun ram => ?_⟩
    · rw [read, if_neg (by omega), slice_congr fun i _ hi => h.cache i (by omega)]
    · obtain ⟨s', e, -, -, hc⟩ := h.reload R ram
      exact ⟨s', e, hc⟩
  · refine ⟨fun address length hl => ?_, fun ram => ?_⟩
    · rw [read, if_neg (by omega), zero, slice_congr fun i _ hi => h.cache i (by omega)]
    · obtain ⟨s', e, -, -, hc⟩ := h.reload R big ram
      exact ⟨s', e, fun i hi => (hc i hi).trans (h.cache i hi).symm⟩

/-- The smallest log with two-byte words that a configuration can have. -/
def smallConfig : Config where
  writeSize := .two
  logicalSize := 16
  backingSize := 48
  uninit := fun _ => 0
  backing_ge := by decide
  logical_aligned := by decide
  backing_multiple := by decide
  backing_lt := by decide

theorem small_reads_and_reload :
    read smallConfig (run (memStore smallConfig) smallConfig (State.start fun _ => 0)
      [.init, .write 3 [1, 2, 3], .write 4 [7]]) 3 3 = (.success, [1, 7, 3]) := by
  have h := (reads_and_reload_of_run (memStore_reliable smallConfig) (by decide) (by decide) rfl
    [.init, .write 3 [1, 2, 3], .write 4 [7]] (by decide) (by decide)).1 3 3 (by decide)
  exact h.trans (by decide)

/-- Before the first initialisation the write pointer is zero, so a write goes to
the consolidated area: it is read back from the cache and lost at the next start. -/
theorem write_before_init_lost :
    (Op.write 0 [1]).InRange smallConfig ∧
    read smallConfig (run (memStore smallConfig) smallConfig (State.start fun _ => 0) [.write 0 [1]])
      0 1 = (.success, [1]) ∧
    (init (memStore smallConfig) smallConfig
      (run (memStore smallConfig) smallConfig (State.start fun _ => 0) [.write 0 [1]])).2.cache 0 = 0 := by
  decide +kernel

end QmkFirmware.WearLeveling
