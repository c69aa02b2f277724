import QmkFirmware.WearLeveling.Durability

/-!
# Acknowledged writes on a store that fails

A `Flaky` store follows a script of failures. The order of the calls a write
makes is known beforehand, and with it what each call tolerates: refusing the
first word of an entry leaves the log as it was, refusing a later one leaves a
torn entry, and once a consolidation has erased the store every call has to
succeed. `Spared` is that condition on the script, together with the one on the
early return for unchanged data: none of its bytes is `ahead`, that is, changed
in the cache by a call that failed and not stored since.
-/

namespace QmkFirmware.WearLeveling
open Lib

/-- A store's contents and the outcomes of the calls to come. A call that meets
`some k` fails: an erase has cleared the first `k` cells before it gave up, a
write has programmed the first `k` bytes of its word. -/
structure Flaky where
  mem : Nat → UInt8
  faults : List (Option Nat)

namespace Flaky

/-- The outcome of the next call. -/
def next (f : Flaky) : Option Nat := f.faults.head?.join

def rest (f : Flaky) : Flaky := { f with faults := f.faults.tail }

@[simp] theorem rest_mem (f : Flaky) : f.rest.mem = f.mem := rfl

end Flaky

/-- The driver of a flaky store. Reading and initialising do not fail. -/
def flakyStore (c : Config) : BackingStore Flaky where
  init f := (true, f)
  unlock f := (f.next.isNone, f.rest)
  erase f :=
    match f.next with
    | none => (true, { f.rest with mem := fun _ => 0 })
    | some k => (false, { f.rest with mem := patch f.mem 0 (List.replicate k 0) })
  write f a w :=
    match f.next with
    | none => (true, { f.rest with mem := patch f.mem a w })
    | some k => (false, { f.rest with mem := patch f.mem a (w.take k) })
  lock f := (f.next.isNone, f.rest)
  read f a := (some (slice f.mem a c.ws), f)

theorem flakyStore_readable (c : Config) : Readable c (flakyStore c) Flaky.mem where
  read f _ _ _ := ⟨f, rfl, rfl⟩

/-! ## What a write tolerates -/

/-- What a call may meet: any failure, a failure without effect, none. -/
inductive Tolerance where
  | any | refusal | none
  deriving DecidableEq, Repr

def Tolerance.allows : Tolerance → Nat → Bool
  | .any, _ => true
  | .refusal, k => k = 0
  | .none, _ => false

/-- A call that must not leave anything behind is refused, or not at all. -/
theorem Tolerance.refused {t : Tolerance} {k : Nat} (clean : t ≠ .any) (h : t.allows k = true) :
    t = .refusal ∧ k = 0 := by
  cases t with
  | any => exact absurd rfl clean
  | refusal => exact ⟨rfl, by simpa [allows] using h⟩
  | none => simp [allows] at h

/-- The first failure in the script meets a call that tolerates it, or comes
after all of the calls listed. -/
def spared : List (Option Nat) → List Tolerance → Bool
  | [], _ => true
  | _, [] => true
  | none :: faults, _ :: calls => spared faults calls
  | some k :: _, t :: _ => t.allows k

/-- The calls of `wear_leveling_consolidate_force` on an unlocked store. The
erase may be refused when the log ends with a `whole` entry. -/
def consolidatePlan (c : Config) (whole : Bool) : List Tolerance :=
  (if whole then .refusal else .none) ::
    (List.replicate (c.logicalSize / c.ws) .none ++ List.replicate (8 / c.ws) .none)

/-- The calls that append the words of an entry at `wa`. -/
def appendPlan (c : Config) (first : Tolerance) (wa : Nat) : Nat → List Tolerance
  | 0 => []
  | n + 1 =>
    first ::
      (if c.backingSize ≤ wa + c.ws then consolidatePlan c (n = 0 ∨ c.backingSize ≤ wa)
      else appendPlan c .none (wa + c.ws) n)

/-- The calls of the loop of `wear_leveling_write_raw`. -/
def loopPlan (c : Config) : Nat → Nat → Nat → List UInt8 → List Tolerance
  | 0, _, _, _ => []
  | fuel + 1, wa, address, p =>
    if p.length = 0 then []
    else
      let n := (nextWords c address p).length
      let taken := (nextRecord c address p).effect.data.length
      appendPlan c .refusal wa n ++
        (if wa + c.ws * n < c.backingSize then
          loopPlan c fuel (wa + c.ws * n) (address + taken) (p.drop taken)
        else [])

/-- The calls of `wear_leveling_write` up to the last lock, which tolerates everything. -/
def writePlan (c : Config) (s : State Flaky) (address : Nat) (value : List UInt8) : List Tolerance :=
  (if s.unlocked then [] else [.any]) ++ loopPlan c value.length s.writeAddress address value

/-- A write that returns early, because its value is the cache's, is of bytes
none of which is `ahead`; any other meets only failures its calls tolerate. -/
def Spared (c : Config) (s : State Flaky) (ahead : Nat → Bool) (address : Nat)
    (value : List UInt8) : Prop :=
  if c.logicalSize < address + value.length then True
  else if value = slice s.cache address value.length then
    ∀ k < value.length, ahead (address + k) = false
  else spared s.store.faults (writePlan c s address value) = true

instance (c : Config) (s : State Flaky) (ahead : Nat → Bool) (address : Nat) (value : List UInt8) :
    Decidable (Spared c s ahead address value) := by
  unfold Spared
  infer_instance

/-- How a write that changes the cache has gone by the time it locks the store again. -/
def outcome (c : Config) (s : State Flaky) (address : Nat) (value : List UInt8) : Status :=
  match unlock (flakyStore c) { s with cache := patch s.cache address value } with
  | (.failure, _) => .failed
  | (_, s) => (writeAndConsolidate (flakyStore c) c s address value).1

/-- The bytes that are ahead after a write: a failed one adds those it has changed
in the cache, an appended one stores its own, a consolidation stores them all. -/
def aheadAfter (c : Config) (s : State Flaky) (ahead : Nat → Bool) (address : Nat)
    (value : List UInt8) : Nat → Bool :=
  if c.logicalSize < address + value.length ∨ value = slice s.cache address value.length then ahead
  else
    match outcome c s address value with
    | .success => fun i => ahead i && !(address ≤ i && i < address + value.length)
    | .consolidated => fun _ => false
    | .failed => fun i => ahead i || patch s.cache address value i != s.cache i

section Script

variable {f : Flaky} {t : Tolerance} {ts : List Tolerance}

/-- A call succeeds and the script goes on, or it meets a failure it allows. -/
theorem spared_cons (h : spared f.faults (t :: ts) = true) :
    (f.next = none ∧ spared f.rest.faults ts = true) ∨ ∃ k, f.next = some k ∧ t.allows k = true := by
  rcases f with ⟨m, _ | ⟨_ | k, faults⟩⟩
  · exact Or.inl ⟨rfl, rfl⟩
  · exact Or.inl ⟨rfl, h⟩
  · exact Or.inr ⟨k, rfl, h⟩

/-- A call that tolerates nothing succeeds. -/
theorem spared_none (ts : List Tolerance) (h : spared f.faults (.none :: ts) = true) :
    f.next = none ∧ spared f.rest.faults ts = true := by
  rcases spared_cons h with h | ⟨k, -, h⟩
  · exact h
  · simp [Tolerance.allows] at h

end Script

/-! ## The log while failures are tolerated -/

/-- The log ends at the write pointer, or it is full and the erase that should
have followed was refused. -/
def Ledger (c : Config) (m : Nat → UInt8) (wa : Nat) (view : Nat → UInt8) : Prop :=
  Stored c m wa view ∨ Logged c m c.backingSize view ∧ c.backingSize ≤ wa

/-- What a store stands for depends on the cells of the store only. -/
theorem Logged.of_agree {c : Config} {m m' : Nat → UInt8} {tail : Nat} {view : Nat → UInt8}
    (h : Logged c m tail view) (agree : ∀ i, i < c.backingSize → m' i = m i) :
    Logged c m' tail view := by
  have hbase := h.logBase_le
  have inside := h.inside
  simp only [Config.logBase] at hbase
  obtain ⟨rs, dec, la, ht, hv⟩ := h.log
  refine ⟨?_, fun i lo hi => ?_, inside, rs, dec, ?_, ht, fun i hi => ?_⟩
  · rw [slice_congr fun i _ hi => agree i (by omega), slice_congr fun i _ hi => agree i (by omega)]
    exact h.consolidated.imp_right fun he i lo hi => by rw [agree i (by omega), he i lo hi]
  · rw [agree i (by omega), h.fresh i lo hi]
  · exact la.congr fun i _ hi => (agree i (by omega)).symm
  · rw [hv i hi]
    exact replay_congr (agree i (by omega)).symm

section Specs

variable {c : Config}

theorem writeBulk_flaky (values : Nat → UInt8) {ts : List Tolerance} (n : Nat) :
    ∀ (f : Flaky) (a src : Nat), spared f.faults (List.replicate n .none ++ ts) = true →
    ∃ f', writeBulk (flakyStore c) c values f a src n = (true, f') ∧
      f'.mem = (writeBulk (memStore c) c values f.mem a src n).2 ∧ spared f'.faults ts = true := by
  induction n with
  | zero => exact fun f a src h => ⟨f, rfl, rfl, h⟩
  | succ n ih =>
    intro f a src h
    obtain ⟨ok, h⟩ := spared_none (List.replicate n .none ++ ts) h
    obtain ⟨f', e, m, h'⟩ := ih { f.rest with mem := patch f.mem a (slice values src c.ws) } (a + c.ws)
      (src + c.ws) h
    refine ⟨f', ?_, m, h'⟩
    rw [writeBulk, flakyStore]
    simp only [ok]
    exact e

/-- Consolidating under a tolerable script: nothing happens, or the store stands
for the cache. -/
theorem consolidateForce_flaky (big : c.logBase < c.backingSize) (s : State Flaky)
    (hu : s.unlocked = true) {whole : Bool} {ts : List Tolerance}
    (h : spared s.store.faults (consolidatePlan c whole ++ ts) = true) :
    (whole = true ∧ ∃ store, store.mem = s.store.mem ∧
      consolidateForce (flakyStore c) c s = (.failed, { s with store })) ∨
    ∃ s', consolidateForce (flakyStore c) c s = (.consolidated, s') ∧ s'.cache = s.cache ∧
      s'.unlocked = true ∧ Stored c s'.store.mem s'.writeAddress s.cache := by
  have hL := c.ws_mul_logical_div
  have h8 := c.ws_mul_eight_div
  have size : c.logicalSize + 8 ≤ c.backingSize := by
    simp only [Config.logBase] at big
    omega
  rcases spared_cons h with ⟨ok, h⟩ | ⟨k, bad, h⟩
  · right
    have h : spared s.store.rest.faults (List.replicate (c.logicalSize / c.ws) .none ++
        (List.replicate (8 / c.ws) .none ++ ts)) = true := by
      rw [← List.append_assoc]
      exact h
    obtain ⟨f₁, e₁, m₁, h⟩ := writeBulk_flaky (c := c) s.cache (c.logicalSize / c.ws)
      { s.store.rest with mem := fun _ => 0 } 0 0 h
    obtain ⟨store₁, e₁', m₁'⟩ := writeBulk_spec (memStore_reliable c) s.cache (c.logicalSize / c.ws)
      (fun _ => 0) 0 0 (Nat.zero_mod _) (by rw [hL]; omega) (fun _ _ _ => rfl)
    rw [hL] at m₁'
    have m₁ : f₁.mem = store₁ := by rw [m₁, e₁']
    obtain ⟨f₂, e₂, m₂, -⟩ := writeBulk_flaky (c := c)
      (patch c.uninit 0 (checksum (slice s.cache 0 c.logicalSize))) (8 / c.ws) f₁ c.logicalSize 0 h
    obtain ⟨store₂, e₂', m₂'⟩ := writeBulk_spec (memStore_reliable c)
      (patch c.uninit 0 (checksum (slice s.cache 0 c.logicalSize))) (8 / c.ws) f₁.mem c.logicalSize 0
      c.logical_aligned (by rw [h8]; omega) (by
        rw [m₁, show store₁ = _ from m₁', h8]
        intro i lo _
        simp only [id]
        rw [patch_above (by simp; omega)])
    have sum := slice_patch_self c.uninit 0 (checksum (slice s.cache 0 c.logicalSize))
    rw [length_checksum] at sum
    simp only [id] at m₁' m₂'
    rw [h8, m₁, m₁', sum] at m₂'
    have m₂ : f₂.mem = store₂ := by rw [m₂, e₂']
    have img := stored_image big s.cache
    rw [← m₂', ← m₂] at img
    refine ⟨{ s with store := f₂, writeAddress := c.logBase }, ?_, rfl, hu, img⟩
    have er : (flakyStore c).erase s.store = (true, { s.store.rest with mem := fun _ => 0 }) := by
      simp only [flakyStore, ok]
    have e₂ : writeBulk (flakyStore c) c
        (patch c.uninit 0 (bytesOfUInt64 (fnv64aBuf (slice s.cache 0 c.logicalSize)))) f₁
        c.logicalSize 0 (8 / c.ws) = (true, f₂) := e₂
    simp [consolidateForce, er, writeConsolidated, unlock, hu, e₁, e₂]
  · left
    cases whole with
    | false => simp [Tolerance.allows] at h
    | true =>
      have zero : k = 0 := by simpa [Tolerance.allows] using h
      subst zero
      refine ⟨rfl, s.store.rest, rfl, ?_⟩
      simp only [consolidateForce, flakyStore, bad, List.replicate_zero, patch_nil]
      rfl

/-- A word has been appended. -/
def State.appended (c : Config) (s : State Flaky) (w : Word) : State Flaky :=
  { s with
    store := { s.store.rest with mem := patch s.store.mem s.writeAddress w }
    writeAddress := s.writeAddress + c.ws }

theorem appendRaw_flaky {s : State Flaky} {w : Word} (ok : s.store.next = none) :
    appendRaw (flakyStore c) c s w = consolidateIfNeeded (flakyStore c) c (s.appended c w) := by
  have written : (flakyStore c).write s.store s.writeAddress w =
      (true, { s.store.rest with mem := patch s.store.mem s.writeAddress w }) := by
    simp only [flakyStore, ok]
  rw [appendRaw, written]
  rfl

/-- The first word that fills the store ends the entry. -/
theorem appendAll_flaky_fills {s s' : State Flaky} {w : Word} {words : List Word} {status : Status} (ok : s.store.next = none)
    (full : c.backingSize ≤ s.writeAddress + c.ws) (e : consolidateForce (flakyStore c) c (s.appended c w) = (status, s'))
    (ne : status ≠ .success) : appendAll (flakyStore c) c s (w :: words) = (status, s') := by
  have filled : consolidateIfNeeded (flakyStore c) c (s.appended c w) = (status, s') := by
    rw [consolidateIfNeeded, ← e]
    exact if_pos full
  rw [appendAll, appendRaw_flaky ok, filled]
  cases status with
  | success => exact absurd rfl ne
  | consolidated => rfl
  | failed => rfl

/-- What appending the words of an entry may leave: all of them in the log; the
log as it was, when the first word was refused; a full log, when the erase was;
or a fresh image of the cache. -/
theorem appendAll_flaky (big : c.logBase < c.backingSize) {ts : List Tolerance} (words : List Word) :
    ∀ (s : State Flaky) (first : Tolerance), first ≠ .any → (∀ w ∈ words, w.length = c.ws) →
    s.unlocked = true → s.writeAddress % c.ws = 0 → s.writeAddress < c.backingSize →
    spared s.store.faults (appendPlan c first s.writeAddress words.length ++ ts) = true →
    (s.writeAddress + words.flatten.length < c.backingSize ∧
      ∃ store, store.mem = patch s.store.mem s.writeAddress words.flatten ∧
        spared store.faults ts = true ∧
        appendAll (flakyStore c) c s words =
          (.success, { s with store, writeAddress := s.writeAddress + words.flatten.length })) ∨
    (first ≠ .none ∧ ∃ store, store.mem = s.store.mem ∧
      appendAll (flakyStore c) c s words = (.failed, { s with store })) ∨
    (s.writeAddress + words.flatten.length = c.backingSize ∧
      ∃ store, store.mem = patch s.store.mem s.writeAddress words.flatten ∧
        appendAll (flakyStore c) c s words =
          (.failed, { s with store, writeAddress := c.backingSize })) ∨
    ∃ s', appendAll (flakyStore c) c s words = (.consolidated, s') ∧ s'.cache = s.cache ∧
      s'.unlocked = true ∧ Stored c s'.store.mem s'.writeAddress s.cache := by
  induction words with
  | nil => exact fun s _ _ _ _ _ hi h => Or.inl ⟨by simpa using hi, s.store, by simp, h, rfl⟩
  | cons w words ih =>
    intro s first clean hws hu ha hi h
    have hw := hws w List.mem_cons_self
    have hf : (w :: words).flatten = w ++ words.flatten := rfl
    have fits := add_le_of_lt_of_mod ha c.backing_mod_ws hi
    rcases spared_cons h with ⟨ok, h⟩ | ⟨k, bad, h⟩
    · rcases Nat.lt_or_ge (s.writeAddress + c.ws) c.backingSize with more | full
      · have app : appendRaw (flakyStore c) c s w = (.success, s.appended c w) := by
          rw [appendRaw_flaky ok, consolidateIfNeeded]
          exact if_neg (Nat.not_le.2 more)
        rw [if_neg (by omega)] at h
        have rest := ih (s.appended c w) .none (by simp) (fun v hv => hws v (List.mem_cons_of_mem _ hv)) hu
          (add_self_mod ha) more h
        have step : appendAll (flakyStore c) c s (w :: words) = appendAll (flakyStore c) c (s.appended c w) words := by
          rw [appendAll, app]
        rw [step, hf, List.length_append, hw, ← Nat.add_assoc, patch_append, hw]
        rcases rest with ⟨lt, done⟩ | ⟨never, -⟩ | rest | rest
        · exact Or.inl ⟨lt, done⟩
        · exact absurd rfl never
        · exact Or.inr (Or.inr (Or.inl rest))
        · exact Or.inr (Or.inr (Or.inr rest))
      · rw [if_pos full] at h
        have atEnd : s.writeAddress + c.ws = c.backingSize := by omega
        rcases consolidateForce_flaky big (s.appended c w) hu h with ⟨whole, store, m, e⟩ | ⟨s', e, c', u', st⟩
        · -- only a whole entry may stand at the end when the erase is refused
          have last : words = [] := by
            have : words.length = 0 ∨ c.backingSize ≤ s.writeAddress := by simpa using whole
            exact List.length_eq_zero_iff.1 (by omega)
          subst last
          refine Or.inr (Or.inr (Or.inl ⟨by simp [hw, atEnd], store, by simp [m, State.appended], ?_⟩))
          rw [appendAll_flaky_fills ok full e (by simp), ← atEnd]
          rfl
        · exact Or.inr (Or.inr (Or.inr ⟨s', appendAll_flaky_fills ok full e (by simp), c', u', st⟩))
    · obtain ⟨rfl, rfl⟩ := Tolerance.refused clean h
      refine Or.inr (Or.inl ⟨by simp, s.store.rest, rfl, ?_⟩)
      simp only [appendAll, appendRaw, flakyStore, bad, List.take_zero, patch_nil]
      rfl

/-- Appending behind a full log, after its erase was refused. -/
theorem appendAll_flaky_full (big : c.logBase < c.backingSize) {ts : List Tolerance} {w : Word}
    (words : List Word) (s : State Flaky) (hu : s.unlocked = true)
    (full : c.backingSize ≤ s.writeAddress)
    (h : spared s.store.faults (appendPlan c .refusal s.writeAddress (w :: words).length ++ ts) = true) :
    (∃ store wa, (∀ i, i < c.backingSize → store.mem i = s.store.mem i) ∧ c.backingSize ≤ wa ∧
      appendAll (flakyStore c) c s (w :: words) =
        (.failed, { s with store, writeAddress := wa })) ∨
    ∃ s', appendAll (flakyStore c) c s (w :: words) = (.consolidated, s') ∧ s'.cache = s.cache ∧
      s'.unlocked = true ∧ Stored c s'.store.mem s'.writeAddress s.cache := by
  rcases spared_cons h with ⟨ok, h⟩ | ⟨k, bad, h⟩
  · have full' : c.backingSize ≤ s.writeAddress + c.ws := by omega
    rw [if_pos full'] at h
    rcases consolidateForce_flaky big (s.appended c w) hu h with ⟨-, store, m, e⟩ | ⟨s', e, c', u', st⟩
    · refine Or.inl ⟨store, s.writeAddress + c.ws, fun i hi => ?_, full', appendAll_flaky_fills ok full' e (by simp)⟩
      rw [m]
      exact patch_below (by omega)
    · exact Or.inr ⟨s', appendAll_flaky_fills ok full' e (by simp), c', u', st⟩
  · obtain ⟨-, rfl⟩ := Tolerance.refused (by simp) h
    refine Or.inl ⟨s.store.rest, s.writeAddress, fun _ _ => rfl, full, ?_⟩
    simp only [appendAll, appendRaw, flakyStore, bad, List.take_zero, patch_nil]
    rfl

/-- What the next start finds after a loop that was to write `p` at `address`
over `view`. -/
def LoopLeaves (c : Config) (address : Nat) (p : List UInt8) (view cache : Nat → UInt8)
    (status : Status) (wa : Nat) (after : Nat → UInt8) : Prop :=
  match status with
  | .success => wa < c.backingSize ∧ ∀ i, i < c.logicalSize → after i = patch view address p i
  | .consolidated => ∀ i, i < c.logicalSize → after i = cache i
  | .failed => ∀ i, i < c.logicalSize → after i = view i ∨ after i = patch view address p i

/-- Some of the bytes written first: each is old or new. -/
theorem patch_take (view : Nat → UInt8) (address n : Nat) (p : List UInt8) (i : Nat) :
    patch view address (p.take n) i = view i ∨ patch view address (p.take n) i = patch view address p i := by
  by_cases hi : i < address + (p.take n).length
  · right
    have split := patch_append view address (p.take n) (p.drop n)
    rw [List.take_append_drop] at split
    rw [split, patch_below hi]
  · exact Or.inl (patch_above (by omega))

/-- The loop under a tolerable script keeps the log whole. -/
theorem writeRawLoop_flaky (big : c.logBase < c.backingSize) (size : c.logicalSize ≤ 2 ^ 19)
    (fuel : Nat) : ∀ (s : State Flaky) (address : Nat) (p : List UInt8) (view : Nat → UInt8),
    p.length ≤ fuel → address + p.length ≤ c.logicalSize → s.unlocked = true →
    Ledger c s.store.mem s.writeAddress view → 0 < p.length ∨ s.writeAddress < c.backingSize →
    spared s.store.faults (loopPlan c fuel s.writeAddress address p) = true →
    ∃ status s' after, writeRawLoop (flakyStore c) c fuel s address p .success = (status, s') ∧
      s'.cache = s.cache ∧ s'.unlocked = true ∧ Ledger c s'.store.mem s'.writeAddress after ∧
      LoopLeaves c address p view s.cache status s'.writeAddress after := by
  induction fuel with
  | zero =>
    intro s address p view hf _ hu led room _
    have : p = [] := List.length_eq_zero_iff.1 (by omega)
    subst this
    exact ⟨_, s, view, rfl, rfl, hu, led, room.resolve_left (by simp), by simp⟩
  | succ fuel ih =>
    intro s address p view hf hb hu led room h
    by_cases hp : p.length = 0
    · have : p = [] := List.length_eq_zero_iff.1 hp
      subst this
      exact ⟨.success, s, view, by simp [writeRawLoop], rfl, hu, led, room.resolve_left (by simp),
        by simp⟩
    · rw [loopPlan, if_neg hp] at h
      have hp : 0 < p.length := by omega
      obtain ⟨n, hn, hnp, he⟩ := nextRecord_effect c address hp
      have dec := decodes_nextRecord (c := c) hp size hb
      have flat := nextWords_flatten c address p
      have lens := length_of_mem_nextWords c address p
      have hlen : c.ws * (nextWords c address p).length = (nextRecord c address p).bytes.length := by
        rw [← flat, length_flatten_words lens]
      rw [writeRawLoop_succ fuel s address hp]
      rcases led with st | ⟨lg, full⟩
      · rcases appendAll_flaky big (nextWords c address p) s .refusal (by simp) lens hu st.aligned st.room h with
          ⟨lt, store, m, h, e⟩ | ⟨-, store, m, e⟩ | ⟨atEnd, store, m, e⟩ | ⟨s', e, c', u', st'⟩
        · rw [flat] at lt m e
          rw [if_pos (by omega), hlen] at h
          have st' := st.append dec lt
          rw [← m] at st'
          simp only [he, List.length_take, Nat.min_eq_left hnp] at h
          obtain ⟨status, s', after, e', c', u', led', lv⟩ := ih
            { s with store, writeAddress := s.writeAddress + (nextRecord c address p).bytes.length }
            (address + n) (p.drop n) _ (by simp; omega) (by simp; omega) hu (Or.inl st') (Or.inr lt) h
          refine ⟨status, s', after, ?_, c', u', led', ?_⟩
          · simp only [e, he, List.length_take, Nat.min_eq_left hnp, e']
          · have split := patch_append view address (p.take n) (p.drop n)
            rw [List.take_append_drop, List.length_take, Nat.min_eq_left hnp] at split
            simp only [he, Patch.apply] at lv
            cases status with
            | success => exact ⟨lv.1, fun i hi => by rw [lv.2 i hi, split]⟩
            | consolidated => exact lv
            | failed =>
              intro i hi
              rcases lv i hi with e | e
              · rw [e]
                exact patch_take view address n p i
              · exact Or.inr (by rw [e, split])
        · exact ⟨.failed, { s with store }, view, by rw [e], rfl, hu, Or.inl (by simpa only [m] using st),
            fun _ _ => Or.inl rfl⟩
        · rw [flat] at atEnd m
          have lg := st.toLogged.append dec (by omega)
          rw [atEnd, ← m] at lg
          refine ⟨.failed, { s with store, writeAddress := c.backingSize }, _, by rw [e], rfl, hu,
            Or.inr ⟨lg, Nat.le_refl _⟩, fun i _ => ?_⟩
          rw [he]
          exact patch_take view address n p i
        · exact ⟨.consolidated, s', s.cache, by rw [e], c', u', Or.inl st', fun _ _ => rfl⟩
      · have pos := dec.pos
        obtain ⟨w, words, hw⟩ : ∃ w words, nextWords c address p = w :: words := by
          cases hw : nextWords c address p with
          | nil => simp [hw] at hlen; omega
          | cons w words => exact ⟨w, words, rfl⟩
        rw [hw] at h ⊢
        rcases appendAll_flaky_full big words s hu full h with ⟨store, wa, agree, past, e⟩ | ⟨s', e, c', u', st⟩
        · exact ⟨.failed, { s with store, writeAddress := wa }, view, by rw [e], rfl, hu,
            Or.inr ⟨lg.of_agree agree, past⟩, fun _ _ => Or.inl rfl⟩
        · exact ⟨.consolidated, s', s.cache, by rw [e], c', u', Or.inl st, fun _ _ => rfl⟩

theorem lock_flaky {s : State Flaky} (hu : s.unlocked = true) :
    lock (flakyStore c) s =
      (if s.store.next.isNone then .success else .failure,
        { s with store := s.store.rest, unlocked := !s.store.next.isNone }) := by
  cases h : s.store.next <;> simp [lock, hu, flakyStore, h]

/-- A write that reaches the store under a tolerable script. -/
theorem write_flaky (big : c.logBase < c.backingSize) (size : c.logicalSize ≤ 2 ^ 19)
    (s : State Flaky) {address : Nat} {value : List UInt8} {view : Nat → UInt8}
    (range : address + value.length ≤ c.logicalSize)
    (change : value ≠ slice s.cache address value.length)
    (led : Ledger c s.store.mem s.writeAddress view)
    (h : spared s.store.faults (writePlan c s address value) = true) :
    ∃ status s' after, write (flakyStore c) c s address value = (status, s') ∧
      s'.cache = patch s.cache address value ∧ Ledger c s'.store.mem s'.writeAddress after ∧
      (outcome c s address value = .failed → status = .failed) ∧
      LoopLeaves c address value view s'.cache (outcome c s address value) s'.writeAddress after := by
  have pos : 0 < value.length := by
    cases value with
    | nil => exact absurd rfl change
    | cons => simp
  have skip : ¬ c.logicalSize < address + value.length := by omega
  -- from an unlocked store on
  have body : ∀ t : State Flaky, t.unlocked = true → t.cache = patch s.cache address value →
      t.store.mem = s.store.mem → t.writeAddress = s.writeAddress →
      spared t.store.faults (loopPlan c value.length s.writeAddress address value) = true →
      ∃ status s' after, writeAndConsolidate (flakyStore c) c t address value = (status, s') ∧
        s'.unlocked = true ∧ s'.cache = patch s.cache address value ∧
        Ledger c s'.store.mem s'.writeAddress after ∧
        LoopLeaves c address value view s'.cache status s'.writeAddress after := by
    intro t hu ct mt wt h
    obtain ⟨status, s', after, e, c', u', led', lv⟩ := writeRawLoop_flaky big size value.length t
      address value view (Nat.le_refl _) range hu (by rwa [mt, wt]) (Or.inl pos) (by rwa [wt])
    refine ⟨status, s', after, ?_, u', c'.trans ct, led', c' ▸ lv⟩
    rw [writeAndConsolidate, writeRaw, e]
    cases status with
    | success => simp only [consolidateIfNeeded, if_neg (Nat.not_le.2 lv.1)]
    | _ => rfl
  unfold write outcome
  rw [if_neg skip, if_neg change]
  by_cases hu : s.unlocked = true
  · obtain ⟨status, s', after, e, -, c', led', lv⟩ := body
      { s with cache := patch s.cache address value } hu rfl rfl rfl (by simpa [writePlan, hu] using h)
    have un : unlock (flakyStore c) { s with cache := patch s.cache address value } =
        (.unchanged, { s with cache := patch s.cache address value }) := by
      simp [unlock, hu]
    simp only [un, e, reduceCtorEq, if_false]
    exact ⟨status, s', after, rfl, c', led', id, lv⟩
  · rw [writePlan, if_neg hu] at h
    rcases spared_cons h with ⟨ok, h⟩ | ⟨k, bad, -⟩
    · obtain ⟨status, s', after, e, u', c', led', lv⟩ := body
        ⟨patch s.cache address value, s.writeAddress, true, s.store.rest⟩ rfl rfl rfl rfl h
      have un : unlock (flakyStore c) { s with cache := patch s.cache address value } =
          (.success, ⟨patch s.cache address value, s.writeAddress, true, s.store.rest⟩) := by
        simp [unlock, hu, flakyStore, ok]
      simp only [un, e, if_true, lock_flaky u']
      refine ⟨if s'.store.next.isNone then status else .failed,
        { s' with store := s'.store.rest, unlocked := !s'.store.next.isNone }, after, ?_, c', led', ?_,
        lv⟩
      · cases s'.store.next <;> rfl
      · rintro rfl
        split <;> rfl
    · have un : unlock (flakyStore c) { s with cache := patch s.cache address value } =
          (.failure, ⟨patch s.cache address value, s.writeAddress, s.unlocked, s.store.rest⟩) := by
        simp [unlock, hu, flakyStore, bad]
      simp only [un]
      refine ⟨.failed, ⟨patch s.cache address value, s.writeAddress, s.unlocked, s.store.rest⟩, view, ?_,
        rfl, led, fun _ => rfl, fun _ _ => Or.inl rfl⟩
      simp [lock, hu]

end Specs

/-! ## Runs -/

/-- A start on a store that works again rebuilds what the log stands for. -/
theorem init_of_ledger {σ : Type} {c : Config} {d : BackingStore σ} {mem : σ → Nat → UInt8}
    (R : Reliable c d mem) (big : c.logBase < c.backingSize) {wa : Nat} {view : Nat → UInt8}
    (ram : State σ) (h : Ledger c (mem ram.store) wa view) :
    ∃ status s', init d c ram = (status, s') ∧ status ≠ .failed ∧
      ∀ i, i < c.logicalSize → s'.cache i = view i := by
  rcases h with st | ⟨lg, -⟩
  · obtain ⟨s', e, -, -, -, hc⟩ := init_spec R.toReadable ram (R.init ram.store) st
    exact ⟨_, s', e, by simp, hc⟩
  · obtain ⟨s₁, e₁, -, w₁, -, c₁⟩ := init_logged R.toReadable ram (R.init ram.store) lg
    obtain ⟨s', e', c', -⟩ := consolidateForce_spec R big s₁
    refine ⟨.consolidated, s', ?_, by simp, fun i hi => by rw [c', c₁ i hi]⟩
    rw [e₁, consolidateIfNeeded, if_pos (Nat.le_of_eq w₁.symm), e']

/-- The log stands for `view`, which is the cache but for the bytes ahead. -/
structure Level (c : Config) (s : State Flaky) (ahead : Nat → Bool) (view : Nat → UInt8) : Prop where
  ledger : Ledger c s.store.mem s.writeAddress view
  level : ∀ i, i < c.logicalSize → ahead i = false → view i = s.cache i

/-- The log is whole, and it and the cache hold `value` at `address`. -/
structure Holds (c : Config) (s : State Flaky) (ahead : Nat → Bool) (address : Nat)
    (value : List UInt8) : Prop where
  log : ∃ view, Level c s ahead view
  stored : ∀ k < value.length, ahead (address + k) = false
  cache : slice s.cache address value.length = value

/-- A call that may change bytes of the `n` from `a` on. -/
def Overwrites (c : Config) (a n : Nat) (op : Nat × List UInt8) : Prop :=
  op.1 + op.2.length ≤ c.logicalSize ∧ op.1 < a + n ∧ a < op.1 + op.2.length

instance (c : Config) (a n : Nat) : DecidablePred (Overwrites c a n) :=
  fun _ => inferInstanceAs (Decidable (_ ∧ _ ∧ _))

/-- The state after a sequence of writes. -/
def runWrites (c : Config) (s : State Flaky) (ops : List (Nat × List UInt8)) : State Flaky :=
  ops.foldl (fun s op => (write (flakyStore c) c s op.1 op.2).2) s

theorem runWrites_cons {c : Config} (s : State Flaky) (op : Nat × List UInt8)
    (ops : List (Nat × List UInt8)) :
    runWrites c s (op :: ops) = runWrites c (write (flakyStore c) c s op.1 op.2).2 ops := rfl

theorem runWrites_append {c : Config} (s : State Flaky) (ops ops' : List (Nat × List UInt8)) :
    runWrites c s (ops ++ ops') = runWrites c (runWrites c s ops) ops' := by
  simp [runWrites]

/-- The bytes that are ahead after a sequence of writes. -/
def runAhead (c : Config) : State Flaky → (Nat → Bool) → List (Nat × List UInt8) → Nat → Bool
  | _, ahead, [] => ahead
  | s, ahead, op :: ops =>
    runAhead c (write (flakyStore c) c s op.1 op.2).2 (aheadAfter c s ahead op.1 op.2) ops

/-- Every write of the sequence is spared in the state it meets. -/
def SparedRun (c : Config) : State Flaky → (Nat → Bool) → List (Nat × List UInt8) → Prop
  | _, _, [] => True
  | s, ahead, op :: ops =>
    Spared c s ahead op.1 op.2 ∧
      SparedRun c (write (flakyStore c) c s op.1 op.2).2 (aheadAfter c s ahead op.1 op.2) ops

instance (c : Config) (s : State Flaky) (ahead : Nat → Bool) (ops : List (Nat × List UInt8)) :
    Decidable (SparedRun c s ahead ops) := by
  induction ops generalizing s ahead with
  | nil => exact isTrue trivial
  | cons op ops ih =>
    have := ih (write (flakyStore c) c s op.1 op.2).2 (aheadAfter c s ahead op.1 op.2)
    exact inferInstanceAs (Decidable (_ ∧ _))

/-- The state after the first initialisation, on an erased store with a script of
failures to come. -/
def started (c : Config) (faults : List (Option Nat)) : State Flaky :=
  (init (flakyStore c) c (State.start ⟨fun _ => 0, faults⟩)).2

theorem SparedRun.append {c : Config} {ops ops' : List (Nat × List UInt8)} {s : State Flaky}
    {ahead : Nat → Bool} :
    SparedRun c s ahead (ops ++ ops') ↔
      SparedRun c s ahead ops ∧ SparedRun c (runWrites c s ops) (runAhead c s ahead ops) ops' := by
  induction ops generalizing s ahead with
  | nil => simp [SparedRun, runWrites, runAhead]
  | cons op ops ih => simp only [List.cons_append, SparedRun, ih, and_assoc, runWrites_cons, runAhead]

section Runs

variable {c : Config} {s : State Flaky} {ahead : Nat → Bool} {address : Nat} {value : List UInt8}

theorem aheadAfter_of_early
    (early : c.logicalSize < address + value.length ∨ value = slice s.cache address value.length) :
    aheadAfter c s ahead address value = ahead := by
  rw [aheadAfter, if_pos early]

/-- A write adds bytes only where it changes the cache. -/
theorem aheadAfter_apart {i : Nat} (apart : i < address ∨ address + value.length ≤ i)
    (h : ahead i = false) : aheadAfter c s ahead address value i = false := by
  unfold aheadAfter
  split
  · exact h
  · cases outcome c s address value <;> simp [h, patch_outside apart]

variable (big : c.logBase < c.backingSize) (size : c.logicalSize ≤ 2 ^ 19)

include big size

/-- A spared write keeps log and cache together; acknowledged, it leaves none of
its bytes ahead. -/
theorem write_spared {view : Nat → UInt8} (h : Level c s ahead view)
    (sp : Spared c s ahead address value) (range : address + value.length ≤ c.logicalSize) :
    ∃ status s' after, write (flakyStore c) c s address value = (status, s') ∧
      s'.cache = patch s.cache address value ∧
      Level c s' (aheadAfter c s ahead address value) after ∧
      (status ≠ .failed → ∀ k < value.length, aheadAfter c s ahead address value (address + k) = false) := by
  have fits : ¬ c.logicalSize < address + value.length := by omega
  rw [Spared, if_neg fits] at sp
  split at sp
  case isTrue same =>
    rw [aheadAfter_of_early (Or.inr same)]
    refine ⟨.success, s, view, by rw [write, if_neg fits, if_pos same], ?_, h, fun _ => sp⟩
    rw [same, patch_slice]
  case isFalse change =>
    obtain ⟨status, s', after, e, hc, led', gone, lv⟩ := write_flaky big size s range change h.ledger sp
    rw [aheadAfter, if_neg (not_or.2 ⟨fits, change⟩)]
    refine ⟨status, s', after, e, hc, ⟨led', fun i hi unset => ?_⟩, fun ok k hk => ?_⟩
    · cases o : outcome c s address value with
      | success =>
        simp only [o, LoopLeaves] at lv unset
        rw [lv.2 i hi, hc]
        by_cases inside : address ≤ i ∧ i < address + value.length
        · rw [patch_inside inside.1 (by omega), patch_inside inside.1 (by omega)]
        · exact patch_congr (h.level i hi (by simpa [inside] using unset)) address value
      | consolidated =>
        simp only [o, LoopLeaves] at lv
        exact lv i hi
      | failed =>
        simp only [o, LoopLeaves, Bool.or_eq_false_iff, bne_eq_false_iff_eq] at lv unset
        -- a byte that the call has not changed was level before it
        have before := h.level i hi unset.1
        rw [hc, unset.2]
        rcases lv i hi with e | e
        · rw [e, before]
        · rw [e, patch_congr before, unset.2]
    · cases o : outcome c s address value with
      | success => simp [hk]
      | consolidated => rfl
      | failed => exact absurd (gone o) ok

/-- An acknowledged write is held. -/
theorem holds_of_acknowledged (h : Holds c s ahead 0 []) (sp : Spared c s ahead address value)
    (ok : (write (flakyStore c) c s address value).1 ≠ .failed) :
    Holds c (write (flakyStore c) c s address value).2 (aheadAfter c s ahead address value) address
      value := by
  obtain ⟨⟨view, level⟩, -, -⟩ := h
  have range : address + value.length ≤ c.logicalSize := by
    by_contra out
    rw [write, if_pos (by omega)] at ok
    exact ok rfl
  obtain ⟨status, s', after, e, hc, level', stored⟩ := write_spared big size level sp range
  rw [e] at ok ⊢
  exact ⟨⟨after, level'⟩, stored ok, by rw [hc]; exact slice_patch_self _ _ _⟩

/-- A later write that does not touch it leaves it held. -/
theorem holds_of_not_overwritten {a : Nat} {data : List UInt8}
    (h : Holds c s ahead a data) (sp : Spared c s ahead address value)
    (apart : ¬ Overwrites c a data.length (address, value)) :
    Holds c (write (flakyStore c) c s address value).2 (aheadAfter c s ahead address value) a data := by
  obtain ⟨⟨view, level⟩, stored, cache⟩ := h
  by_cases out : c.logicalSize < address + value.length
  · rw [write, if_pos out, aheadAfter_of_early (Or.inl out)]
    exact ⟨⟨view, level⟩, stored, cache⟩
  · obtain ⟨status, s', after, e, hc, level', -⟩ := write_spared big size level sp (by omega)
    simp only [Overwrites] at apart
    rw [e]
    refine ⟨⟨after, level'⟩, fun k hk => aheadAfter_apart (by omega) (stored k hk), ?_⟩
    by_cases none : data.length = 0
    · rw [List.length_eq_zero_iff.1 none]
      rfl
    · rw [hc, slice_patch_of_disjoint (by omega), cache]

theorem holds_run {a : Nat} {data : List UInt8} (ops : List (Nat × List UInt8)) : ∀ {s : State Flaky} {ahead : Nat → Bool},
    Holds c s ahead a data → SparedRun c s ahead ops →
    (∀ op ∈ ops, ¬ Overwrites c a data.length op) →
    Holds c (runWrites c s ops) (runAhead c s ahead ops) a data := by
  induction ops with
  | nil => exact fun h _ _ => h
  | cons op ops ih =>
    intro s ahead h sp apart
    exact ih (holds_of_not_overwritten big size h sp.1 (apart op List.mem_cons_self)) sp.2
      fun o ho => apart o (List.mem_cons_of_mem _ ho)

omit size in
theorem holds_start (faults : List (Option Nat)) :
    Holds c (started c faults) (fun _ => false) 0 [] := by
  obtain ⟨s', e, m, w, -, hc⟩ := init_spec (flakyStore_readable c) (State.start ⟨fun _ => 0, faults⟩)
    ⟨_, rfl, rfl⟩ (Stored.erased big)
  rw [started, e]
  exact ⟨⟨fun _ => 0, Or.inl (by rw [m, w]; exact Stored.erased big), fun i hi _ => (hc i hi).symm⟩,
    by simp, rfl⟩

/-- In a run whose writes are all spared, the bytes of an acknowledged write are
read back after a start on a store that works again, until they are overwritten. -/
theorem acknowledged_survives_of_spared (faults : List (Option Nat))
    (before after : List (Nat × List UInt8)) (address : Nat) (value : List UInt8)
    (spared : SparedRun c (started c faults) (fun _ => false) (before ++ (address, value) :: after))
    (acknowledged :
      (write (flakyStore c) c (runWrites c (started c faults) before) address value).1 ≠ .failed)
    (kept : ∀ op ∈ after, ¬ Overwrites c address value.length op)
    {σ : Type} {d : BackingStore σ} {mem : σ → Nat → UInt8} (R : Reliable c d mem) (ram : State σ)
    (same : mem ram.store =
      (runWrites c (started c faults) (before ++ (address, value) :: after)).store.mem) :
    ∃ status s', init d c ram = (status, s') ∧ status ≠ .failed ∧
      read c s' address value.length = (.success, value) := by
  obtain ⟨sp₁, sp₂, sp₃⟩ := SparedRun.append.1 spared
  have range : address + value.length ≤ c.logicalSize := by
    by_contra out
    rw [write, if_pos (by omega)] at acknowledged
    exact acknowledged rfl
  have h₁ := holds_run big size before (holds_start big faults) sp₁
    fun op _ => by simp [Overwrites]
  have h₂ := holds_of_acknowledged big size h₁ sp₂ acknowledged
  have h₃ : Holds c _ _ address value := holds_run big size after h₂ sp₃ kept
  obtain ⟨⟨view, led, level⟩, stored, cache⟩ := h₃
  rw [runWrites_append, runWrites_cons] at same
  rw [← same] at led
  obtain ⟨status, s', e, ok, hc⟩ := init_of_ledger R big ram led
  refine ⟨status, s', e, ok, ?_⟩
  rw [read, if_neg (by omega), slice_congr fun i lo hi => ?_, cache]
  have := stored (i - address) (by omega)
  rw [Nat.add_sub_cancel' lo] at this
  rw [hc i (by omega), level i (by omega) this]

end Runs

theorem small_acknowledged_survives :
    ∃ status s', init (memStore smallConfig) smallConfig
        (State.start (runWrites smallConfig (started smallConfig [none, none, none, none, some 0])
          [(3, [1, 2]), (7, [5])]).store.mem) = (status, s') ∧ status ≠ .failed ∧
      read smallConfig s' 3 2 = (.success, [1, 2]) :=
  acknowledged_survives_of_spared (by decide) (by decide) [none, none, none, none, some 0] []
    [(7, [5])] 3 [1, 2] (by decide +kernel) (by decide +kernel) (by decide)
    (memStore_reliable smallConfig) (State.start _) (by simp only [State.start, id, List.nil_append])

/-- The store refuses to unlock once. The write fails, but it has changed the
cache, so the same write again returns early with success and stores nothing. -/
theorem retry_acknowledged_not_stored :
    (write (flakyStore smallConfig) smallConfig (started smallConfig [some 0]) 3 [9]).1 = .failed ∧
    (write (flakyStore smallConfig) smallConfig
      (runWrites smallConfig (started smallConfig [some 0]) [(3, [9])]) 3 [9]).1 = .success ∧
    read smallConfig (init (memStore smallConfig) smallConfig (State.start
      (runWrites smallConfig (started smallConfig [some 0]) [(3, [9]), (3, [9])]).store.mem)).2 3 1 =
      (.success, [0]) := by
  decide +kernel

end QmkFirmware.WearLeveling
