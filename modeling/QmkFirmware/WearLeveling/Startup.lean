import QmkFirmware.WearLeveling.Log

/-!
# What the start reads and writes

`wear_leveling_init` once more, with a record of its accesses beside the state:
the words it reads from the backing store, the bytes of the cache it sets, and
the bytes of a log entry it copies. The state is the one of the code; the record
is then described by the contents of the store alone.
-/

namespace QmkFirmware.WearLeveling
open Lib

/-- An access of `wear_leveling_init`. -/
inductive Access where
  /-- `backing_store_read` -/
  | read (address : Nat)
  /-- bytes of the cache are set -/
  | cache (index length : Nat)
  /-- bytes `raw8[pos]` and on are copied from an entry of which `fetched` were read -/
  | entry (pos length fetched : Nat)
  deriving DecidableEq, Repr

/-- A word of the store, bytes of the cache, bytes that were read. -/
def Access.InBounds (c : Config) : Access → Prop
  | read address => address + c.ws ≤ c.backingSize
  | cache index length => index + length ≤ c.logicalSize
  | entry pos length fetched => pos + length ≤ fetched

instance (c : Config) : (a : Access) → Decidable (a.InBounds c)
  | .read _ => inferInstanceAs (Decidable (_ ≤ _))
  | .cache _ _ => inferInstanceAs (Decidable (_ ≤ _))
  | .entry _ _ _ => inferInstanceAs (Decidable (_ ≤ _))

/-! ## The code with its accesses -/

section Code

variable {σ : Type} (d : BackingStore σ) (c : Config)

/-- The playback and its accesses so far. -/
structure Traced (σ : Type) where
  playback : Playback σ
  accesses : List Access

def Traced.note (t : Traced σ) (accesses : List Access) : Traced σ :=
  { t with accesses := t.accesses ++ accesses }

def Traced.fail (t : Traced σ) : Traced σ := { t with playback := t.playback.fail }

/-- `memcpy` of `length` bytes from `raw8[pos]` on into the cache. -/
def Traced.copy (t : Traced σ) (address pos length fetched : Nat) (bytes : List UInt8) : Traced σ :=
  { t with playback := t.playback.copy address bytes }.note
    [.entry pos length fetched, .cache address length]

/-- `fetchAll`; the entry comes with the number of bytes read of it. -/
def tracedFetchAll (t : Traced σ) (log : LogEntry) (fetched : Nat) :
    List Nat → Option (LogEntry × Nat) × Traced σ
  | [] => (some (log, fetched), t)
  | pos :: rest =>
    let t := t.note [.read t.playback.address]
    match fetch d c t.playback log pos with
    | (none, playback) => (none, { t with playback })
    | (some log, playback) => tracedFetchAll { t with playback } log (pos + c.ws) rest

/-- `playbackMultibyte` -/
def tracedMultibyte (t : Traced σ) (log : LogEntry) (fetched : Nat) : Traced σ :=
  match tracedFetchAll d c t log fetched (if c.writeSize = .two then [2] else []) with
  | (none, t) => t
  | (some (log, fetched), t) =>
    let a := log.multibyteGetAddress
    let l := log.multibyteGetLength
    if c.logicalSize < a + l then t.fail
    else
      match tracedFetchAll d c t log fetched (payloadPositions c l) with
      | (none, t) => t
      | (some (log, fetched), t) => t.copy a 3 l fetched (slice log 3 l)

/-- `playbackOptimized64` -/
def tracedOptimized64 (t : Traced σ) (log : LogEntry) (fetched : Nat) : Traced σ :=
  let a := log.optimized64GetAddress
  if c.logicalSize ≤ a then t.fail else t.copy a 1 1 fetched [log.optimized64GetValue]

/-- `playbackWord01`; the second byte is a constant. -/
def tracedWord01 (t : Traced σ) (log : LogEntry) (fetched : Nat) : Traced σ :=
  let a := log.word01GetAddress
  if c.logicalSize ≤ a + 1 then t.fail
  else { t with playback := t.playback.copy a [log.word01GetValue, 0] }.note
    [.entry 0 1 fetched, .cache a 2]

/-- `playbackEntry` -/
def tracedEntry (t : Traced σ) (log : LogEntry) (fetched : Nat) : Traced σ :=
  match log.getType with
  | some .multibyte => tracedMultibyte d c t log fetched
  | some .optimized64 => if c.writeSize = .two then tracedOptimized64 c t log fetched else t.fail
  | some .word01 => if c.writeSize = .two then tracedWord01 c t log fetched else t.fail
  | none => t.fail

/-- `playbackStep` -/
def tracedStep (t : Traced σ) : Traced σ :=
  let t := t.note [.read t.playback.address]
  let pb := t.playback
  match d.read pb.state.store pb.address with
  | (none, store) => { t with playback := Playback.fail { pb with state := { pb.state with store } } }
  | (some value, store) =>
    let pb := { pb with state := { pb.state with store } }
    if ∀ b ∈ value, b = 0 then { t with playback := { pb with cancel := true } }
    else tracedEntry d c { t with playback := { pb with address := pb.address + c.ws } }
      (patch c.uninit 0 value) c.ws

/-- `playbackLoop` -/
def tracedLoop : Nat → Traced σ → Traced σ
  | 0, t => t
  | fuel + 1, t =>
    if t.playback.cancel ∨ c.backingSize ≤ t.playback.address then t
    else tracedLoop fuel (tracedStep d c t)

/-- The accesses of `readBulk`, given those of one word. -/
def bulkAccesses (word : Nat → List Access) (store : σ) (address : Nat) : Nat → List Access
  | 0 => []
  | n + 1 => word address ++
    match d.read store address with
    | (none, _) => []
    | (some _, store) => bulkAccesses word store (address + c.ws) n

/-- The accesses of `readConsolidated`; the words go directly to the cache. -/
def consolidatedAccesses (s : State σ) : List Access :=
  bulkAccesses d c (fun a => [.read a, .cache a c.ws]) s.store 0 (c.logicalSize / c.ws) ++
    match readBulk d c s.store 0 (c.logicalSize / c.ws) with
    | (false, _, _) => [.cache 0 c.logicalSize]
    | (true, bytes, store) =>
      bulkAccesses d c (fun a => [.read a]) store c.logicalSize (8 / c.ws) ++
        match readBulk d c store c.logicalSize (8 / c.ws) with
        | (_, sum, _) =>
          let expected := fnv64aBuf (slice (patch s.cache 0 bytes) 0 c.logicalSize)
          let entry : LogEntry := patch c.uninit 0 sum
          if entry.raw64 = bytesOfUInt64 expected then [] else [.cache 0 c.logicalSize]

/-- The accesses of the rest of `wear_leveling_init`, once the driver is initialised. -/
def loadAccesses (s : State σ) : List Access :=
  consolidatedAccesses d c s ++
    match readConsolidated d c s with
    | (.failed, _) => [.cache 0 c.logicalSize]
    | (_, s) =>
      (tracedLoop d c c.backingSize ⟨⟨c.logBase, false, .success, s⟩, []⟩).accesses ++
        if (playbackLog d c s).1 = .failed then [.cache 0 c.logicalSize] else []

/-- The accesses of `wear_leveling_init`. -/
def initAccesses (s : State σ) : List Access :=
  .cache 0 c.logicalSize ::
    match d.init (clearCache c s).store with
    | (false, _) => [.cache 0 c.logicalSize]
    | (true, store) => loadAccesses d c { clearCache c s with store }

end Code

/-! ## The record does not change the code -/

section Erasure

variable {σ : Type} {d : BackingStore σ} {c : Config}

@[simp] theorem Traced.note_playback (t : Traced σ) (l : List Access) : (t.note l).playback = t.playback := rfl
@[simp] theorem Traced.note_accesses (t : Traced σ) (l : List Access) :
    (t.note l).accesses = t.accesses ++ l := rfl
@[simp] theorem Traced.fail_playback (t : Traced σ) : t.fail.playback = t.playback.fail := rfl

theorem tracedFetchAll_playback (ps : List Nat) : ∀ (t : Traced σ) (log : LogEntry) (fetched : Nat),
    fetchAll d c t.playback log ps =
      ((tracedFetchAll d c t log fetched ps).1.map Prod.fst, (tracedFetchAll d c t log fetched ps).2.playback) := by
  induction ps with
  | nil => exact fun t log fetched => rfl
  | cons pos rest ih =>
    intro t log fetched
    rw [fetchAll, tracedFetchAll, Traced.note_playback]
    cases h : fetch d c t.playback log pos with
    | mk result playback =>
      cases result with
      | none => rfl
      | some log' => exact ih ⟨playback, _⟩ log' (pos + c.ws)

theorem tracedMultibyte_playback (t : Traced σ) (log : LogEntry) (fetched : Nat) :
    (tracedMultibyte d c t log fetched).playback = playbackMultibyte d c t.playback log := by
  rw [playbackMultibyte, tracedMultibyte, tracedFetchAll_playback _ t log fetched]
  cases h : tracedFetchAll d c t log fetched (if c.writeSize = .two then [2] else []) with
  | mk result t' =>
    cases result with
    | none => rfl
    | some read =>
      obtain ⟨log', fetched'⟩ := read
      simp only [Option.map_some]
      split
      case isTrue => rfl
      case isFalse =>
        rw [tracedFetchAll_playback _ t' log' fetched']
        cases tracedFetchAll d c t' log' fetched' (payloadPositions c log'.multibyteGetLength) with
        | mk result t'' => cases result <;> rfl

theorem tracedEntry_playback (t : Traced σ) (log : LogEntry) (fetched : Nat) :
    (tracedEntry d c t log fetched).playback = playbackEntry d c t.playback log := by
  rw [tracedEntry, playbackEntry]
  cases log.getType with
  | none => rfl
  | some type =>
    cases type with
    | multibyte => exact tracedMultibyte_playback t log fetched
    | optimized64 =>
      simp only [tracedOptimized64, playbackOptimized64]
      split_ifs <;> rfl
    | word01 =>
      simp only [tracedWord01, playbackWord01]
      split_ifs <;> rfl

theorem tracedStep_playback (t : Traced σ) : (tracedStep d c t).playback = playbackStep d c t.playback := by
  rw [tracedStep, playbackStep]
  simp only [Traced.note_playback]
  cases h : d.read t.playback.state.store t.playback.address with
  | mk result store =>
    cases result with
    | none => rfl
    | some value =>
      simp only
      split
      case isTrue => rfl
      case isFalse => rw [tracedEntry_playback]

/-- The playback of the record is that of the code. -/
theorem tracedLoop_playback (fuel : Nat) : ∀ t : Traced σ,
    (tracedLoop d c fuel t).playback = playbackLoop d c fuel t.playback := by
  induction fuel with
  | zero => exact fun t => rfl
  | succ fuel ih =>
    intro t
    rw [tracedLoop, playbackLoop]
    split
    case isTrue => rfl
    case isFalse => rw [ih, tracedStep_playback]

end Erasure

/-! ## The log of a store -/

section Contents

variable (c : Config) (m : Nat → UInt8)

/-- The entry at `a` with the words of its header. -/
def headerAt (a : Nat) : LogEntry := patch c.uninit 0 (slice m a (c.ws + c.ws * headerRest c))

/-- What the entry at `a` makes the playback access. -/
def entryAccesses (a : Nat) : List Access :=
  let e := headerAt c m a
  if ∀ b ∈ slice m a c.ws, b = 0 then []
  else
    match e.getType with
    | some .multibyte =>
      (if c.writeSize = .two then [.read (a + 2)] else []) ++
        if c.logicalSize < e.multibyteGetAddress + e.multibyteGetLength then []
        else
          (payloadPositions c e.multibyteGetLength).map (fun pos => .read (a + pos)) ++
            [.entry 3 e.multibyteGetLength (multibyteSize c e.multibyteGetLength),
              .cache e.multibyteGetAddress e.multibyteGetLength]
    | some .optimized64 =>
      if c.writeSize = .two ∧ e.optimized64GetAddress < c.logicalSize then
        [.entry 1 1 2, .cache e.optimized64GetAddress 1]
      else []
    | some .word01 =>
      if c.writeSize = .two ∧ e.word01GetAddress + 1 < c.logicalSize then
        [.entry 0 1 2, .cache e.word01GetAddress 2]
      else []
    | none => []

/-- Where the playback goes on behind the entry at `a`; `none` if it stops there. -/
def entryEnd (a : Nat) : Option Nat :=
  let e := headerAt c m a
  if ∀ b ∈ slice m a c.ws, b = 0 then none
  else
    match e.getType with
    | some .multibyte =>
      if c.logicalSize < e.multibyteGetAddress + e.multibyteGetLength then none
      else some (a + multibyteSize c e.multibyteGetLength)
    | some .optimized64 =>
      if c.writeSize = .two ∧ e.optimized64GetAddress < c.logicalSize then some (a + 2) else none
    | some .word01 =>
      if c.writeSize = .two ∧ e.word01GetAddress + 1 < c.logicalSize then some (a + 2) else none
    | none => none

/-- The positions at which the playback looks for an entry when it looks at `z`. -/
inductive ReachedFrom : Nat → Nat → Prop where
  | here {z : Nat} (lt : z < c.backingSize) : ReachedFrom z z
  | later {z b a : Nat} (lt : z < c.backingSize) (here : entryEnd c m z = some b) (rest : ReachedFrom b a) :
    ReachedFrom z a

/-- A multi-byte entry ends inside the store, and its length is one the writer uses. -/
def EntryFits (a : Nat) : Prop :=
  (∃ b ∈ slice m a c.ws, b ≠ 0) → (headerAt c m a).getType = some .multibyte →
    a + c.ws + c.ws * headerRest c ≤ c.backingSize ∧
    ((headerAt c m a).multibyteGetAddress + (headerAt c m a).multibyteGetLength ≤ c.logicalSize →
      (headerAt c m a).multibyteGetLength ≤ LogEntry.multibyteMaxBytes ∧
        a + multibyteSize c (headerAt c m a).multibyteGetLength ≤ c.backingSize)

variable {c m}

/-! ### One entry -/

theorem positionsFrom_add (w k n : Nat) : ∀ pos, (positionsFrom w pos n).map (k + ·) = positionsFrom w (k + pos) n := by
  induction n with
  | zero => exact fun pos => rfl
  | succ n ih =>
    intro pos
    rw [positionsFrom, positionsFrom, List.map_cons, ih, Nat.add_assoc]

/-- Consecutive words lie below `b` if the last one does. -/
theorem positionsFrom_below {w b : Nat} (n : Nat) : ∀ {pos : Nat}, pos ≤ b →
    ((∀ q ∈ positionsFrom w pos n, q + w ≤ b) ↔ pos + w * n ≤ b) := by
  induction n with
  | zero =>
    intro pos h
    simpa [positionsFrom] using h
  | succ n ih =>
    intro pos _
    have hn : pos + w * (n + 1) = pos + w + w * n := by ring
    rw [positionsFrom, List.forall_mem_cons, hn]
    constructor
    · rintro ⟨first, rest⟩
      exact (ih first).1 rest
    · intro h
      have first : pos + w ≤ b := by omega
      exact ⟨first, (ih first).2 h⟩

/-- The words of an entry, one after the other, from a store that is its contents. -/
theorem tracedFetchAll_mem (n : Nat) : ∀ (t : Traced (Nat → UInt8)) (log : LogEntry) (pos : Nat),
    tracedFetchAll (memStore c) c t log pos (positionsFrom c.ws pos n) =
      (some (patch log pos (slice t.playback.state.store t.playback.address (c.ws * n)), pos + c.ws * n),
        ⟨{ t.playback with address := t.playback.address + c.ws * n },
          t.accesses ++ (positionsFrom c.ws t.playback.address n).map .read⟩) := by
  induction n with
  | zero =>
    intro t log pos
    simp [positionsFrom, tracedFetchAll]
  | succ n ih =>
    intro t log pos
    have hn : c.ws * (n + 1) = c.ws + c.ws * n := by ring
    rw [positionsFrom, tracedFetchAll, Traced.note_playback]
    simp only [fetch, memStore]
    have rest := ih ⟨{ t.playback with address := t.playback.address + c.ws },
      t.accesses ++ [.read t.playback.address]⟩
      (patch log pos (slice t.playback.state.store t.playback.address c.ws)) (pos + c.ws)
    simp only [memStore] at rest
    refine rest.trans ?_
    rw [hn, slice_add, patch_append, length_slice, positionsFrom, List.map_cons, Nat.add_assoc, Nat.add_assoc,
      List.append_assoc]
    rfl

theorem headerAt_first (a : Nat) {i : Nat} (hi : i < c.ws) :
    patch c.uninit 0 (slice m a c.ws) i = headerAt c m a i := by
  rw [headerAt, patch_inside (Nat.zero_le i) (by simpa using hi),
    patch_inside (Nat.zero_le i) (by simp; omega)]
  simp

theorem multibyteGetLength_lt (e : LogEntry) : e.multibyteGetLength < 8 := by
  rw [LogEntry.multibyteGetLength, LogEntry.and_bitmask]
  omega

theorem length_fits (c : Config) {l : Nat} (h : l < 8) :
    3 + l ≤ multibyteSize c l ↔ l ≤ LogEntry.multibyteMaxBytes := by
  simp only [LogEntry.multibyteMaxBytes, multibyteSize, headerRest, payloadRest]
  cases hw : c.writeSize <;> simp only [Config.ws, hw, WriteSize.bytes] <;> interval_cases l <;> simp

/-- What is left of one iteration, `t'`, for the entry at `a`. -/
def Follows (c : Config) (m : Nat → UInt8) (t t' : Traced (Nat → UInt8)) (a : Nat) : Prop :=
  t'.accesses = t.accesses ++ entryAccesses c m a ∧ t'.playback.state.store = m ∧
    match entryEnd c m a with
    | none => t'.playback.cancel = true
    | some b => t'.playback.cancel = t.playback.cancel ∧ t'.playback.address = b

section Entries

variable {t : Traced (Nat → UInt8)} {a : Nat} (hs : t.playback.state.store = m)
  (ha : t.playback.address = a + c.ws) (used : ¬ ∀ b ∈ slice m a c.ws, b = 0)

include hs ha used

theorem tracedMultibyte_mem (type : (headerAt c m a).getType = some .multibyte) :
    Follows c m t (tracedMultibyte (memStore c) c t (patch c.uninit 0 (slice m a c.ws)) c.ws) a := by
  have reads : (if c.writeSize = .two then [Access.read (a + 2)] else []) =
      (positionsFrom c.ws (a + c.ws) (headerRest c)).map Access.read := by
    cases hw : c.writeSize <;> simp [headerRest, Config.ws, hw, positionsFrom]
  rw [Follows, entryAccesses, entryEnd, tracedMultibyte]
  simp only [if_neg used, type, reads]
  simp only [header_positions, tracedFetchAll_mem, hs, ha, assemble]
  rw [show patch c.uninit 0 (slice m a (c.ws + c.ws * headerRest c)) = headerAt c m a from rfl]
  split
  case isTrue => exact ⟨by simp [Traced.fail], hs, rfl⟩
  case isFalse =>
    simp only [payload_positions, tracedFetchAll_mem]
    refine ⟨?_, hs, rfl, ?_⟩
    · have moved := positionsFrom_add c.ws a (payloadRest c (headerAt c m a).multibyteGetLength)
        (c.ws + c.ws * headerRest c)
      simp only [Traced.copy, Traced.note, ← Nat.add_assoc] at moved ⊢
      rw [← moved]
      simp [multibyteSize, Function.comp_def]
    · simp only [Traced.copy, Traced.note, Playback.copy, multibyteSize]
      omega

theorem tracedEntry_mem :
    Follows c m t (tracedEntry (memStore c) c t (patch c.uninit 0 (slice m a c.ws)) c.ws) a := by
  have pos := c.ws_pos
  have first : patch c.uninit 0 (slice m a c.ws) 0 = headerAt c m a 0 := headerAt_first a pos
  have same : LogEntry.getType (patch c.uninit 0 (slice m a c.ws)) = (headerAt c m a).getType :=
    LogEntry.getType_congr first
  rw [tracedEntry, same]
  cases type : (headerAt c m a).getType with
  | none =>
    rw [Follows, entryAccesses, entryEnd]
    simp only [if_neg used, type]
    exact ⟨by simp [Traced.fail], hs, rfl⟩
  | some kind =>
    cases kind with
    | multibyte => exact tracedMultibyte_mem hs ha used type
    | optimized64 =>
      rw [Follows, entryAccesses, entryEnd]
      simp only [if_neg used, type]
      by_cases two : c.writeSize = .two
      · have w2 : c.ws = 2 := by simp [Config.ws, two]
        have addr : LogEntry.optimized64GetAddress (patch c.uninit 0 (slice m a c.ws)) =
            (headerAt c m a).optimized64GetAddress := by
          simp only [LogEntry.optimized64GetAddress, first]
        simp only [two, true_and, if_true, tracedOptimized64, addr]
        by_cases below : (headerAt c m a).optimized64GetAddress < c.logicalSize
        · simp only [if_pos below, if_neg (Nat.not_le.2 below)]
          exact ⟨by simp [Traced.copy, w2], hs, rfl, by simp [Traced.copy, Playback.copy, ha, w2]⟩
        · simp only [if_neg below, if_pos (Nat.not_lt.1 below)]
          exact ⟨by simp [Traced.fail], hs, rfl⟩
      · simp only [two, false_and, if_false]
        exact ⟨by simp [Traced.fail], hs, rfl⟩
    | word01 =>
      rw [Follows, entryAccesses, entryEnd]
      simp only [if_neg used, type]
      by_cases two : c.writeSize = .two
      · have w2 : c.ws = 2 := by simp [Config.ws, two]
        have addr : LogEntry.word01GetAddress (patch c.uninit 0 (slice m a c.ws)) =
            (headerAt c m a).word01GetAddress := by
          have second : patch c.uninit 0 (slice m a c.ws) 1 = headerAt c m a 1 := headerAt_first a (by omega)
          simp only [LogEntry.word01GetAddress, first, second]
        simp only [two, true_and, if_true, tracedWord01, addr]
        by_cases below : (headerAt c m a).word01GetAddress + 1 < c.logicalSize
        · simp only [if_pos below, if_neg (Nat.not_le.2 below)]
          exact ⟨by simp [w2], hs, rfl, by simp [Playback.copy, ha, w2]⟩
        · simp only [if_neg below, if_pos (Nat.not_lt.1 below)]
          exact ⟨by simp [Traced.fail], hs, rfl⟩
      · simp only [two, false_and, if_false]
        exact ⟨by simp [Traced.fail], hs, rfl⟩

end Entries

/-- One iteration: the accesses are those of the entry, and it says where to go on. -/
theorem tracedStep_mem (t : Traced (Nat → UInt8)) (hs : t.playback.state.store = m) :
    Follows c m (t.note [.read t.playback.address]) (tracedStep (memStore c) c t) t.playback.address := by
  rw [tracedStep]
  simp only [Traced.note_playback, hs]
  rw [show (memStore c).read m t.playback.address = (some (slice m t.playback.address c.ws), m) from rfl]
  simp only
  by_cases empty : ∀ b ∈ slice m t.playback.address c.ws, b = 0
  · rw [if_pos empty, Follows, entryAccesses, entryEnd]
    simp only [if_pos empty]
    exact ⟨by simp, trivial, trivial⟩
  · rw [if_neg empty]
    exact tracedEntry_mem rfl rfl empty

/-- Consecutive words of the store are in bounds if and only if they end inside it. -/
theorem reads_inBounds {pos : Nat} (n : Nat) (h : pos ≤ c.backingSize) :
    (∀ x ∈ (positionsFrom c.ws pos n).map Access.read, x.InBounds c) ↔ pos + c.ws * n ≤ c.backingSize := by
  rw [← positionsFrom_below n h]
  simp [Access.InBounds]

/-- What the entry at `a` makes the playback access is in bounds if and only if the
entry fits. -/
theorem entryAccesses_inBounds {a : Nat} (room : a + c.ws ≤ c.backingSize) :
    (∀ x ∈ entryAccesses c m a, x.InBounds c) ↔ EntryFits c m a := by
  rw [entryAccesses, EntryFits]
  by_cases empty : ∀ b ∈ slice m a c.ws, b = 0
  · simp only [if_pos empty]
    exact ⟨fun _ ⟨b, hb, ne⟩ => absurd (empty b hb) ne, fun _ x hx => nomatch hx⟩
  · have used : ∃ b ∈ slice m a c.ws, b ≠ 0 := by simpa using empty
    simp only [if_neg empty, used, true_implies]
    cases type : (headerAt c m a).getType with
    | none => simp
    | some kind =>
      cases kind with
      | multibyte =>
        have header : (∀ x ∈ (if c.writeSize = .two then [Access.read (a + 2)] else []), x.InBounds c) ↔
            a + c.ws + c.ws * headerRest c ≤ c.backingSize := by
          rw [← reads_inBounds (headerRest c) room]
          cases hw : c.writeSize <;> simp [headerRest, Config.ws, hw, positionsFrom]
        simp only [List.forall_mem_append, header, true_implies]
        refine and_congr_right fun headerFits => ?_
        by_cases above : c.logicalSize < (headerAt c m a).multibyteGetAddress + (headerAt c m a).multibyteGetLength
        · rw [if_pos above]
          exact ⟨fun _ h => by omega, fun _ x hx => nomatch hx⟩
        · have shifted : (payloadPositions c (headerAt c m a).multibyteGetLength).map
              (fun pos => Access.read (a + pos)) = (positionsFrom c.ws (a + c.ws + c.ws * headerRest c)
                (payloadRest c (headerAt c m a).multibyteGetLength)).map Access.read := by
            rw [payload_positions, Nat.add_assoc a, ← positionsFrom_add c.ws a, List.map_map]
            rfl
          rw [if_neg above, List.forall_mem_append, shifted, reads_inBounds _ headerFits]
          simp only [List.mem_cons, List.not_mem_nil, or_false, forall_eq_or_imp, forall_eq,
            Access.InBounds, length_fits c (multibyteGetLength_lt (headerAt c m a)), Nat.not_lt.1 above,
            and_true, true_implies]
          rw [and_comm, multibyteSize, Nat.add_assoc, Nat.add_assoc, Nat.add_assoc]
      | optimized64 =>
        refine ⟨fun _ h => by simp at h, fun _ => ?_⟩
        simp only
        split_ifs with h
        · simp [Access.InBounds]
          omega
        · simp
      | word01 =>
        refine ⟨fun _ h => by simp at h, fun _ => ?_⟩
        simp only
        split_ifs with h
        · simp [Access.InBounds]
          omega
        · simp

/-- The playback goes on at an aligned address further up. -/
theorem entryEnd_spec {a b : Nat} (h : entryEnd c m a = some b) (aligned : a % c.ws = 0) :
    a < b ∧ b % c.ws = 0 := by
  have pos := c.ws_pos
  have one : c.writeSize = .two → a + 2 = a + c.ws := fun two => by simp [Config.ws, two]
  rw [entryEnd] at h
  by_cases empty : ∀ b ∈ slice m a c.ws, b = 0
  · rw [if_pos empty] at h
    cases h
  rw [if_neg empty] at h
  cases type : (headerAt c m a).getType with
  | none => simp [type] at h
  | some kind =>
    cases kind with
    | multibyte =>
      simp only [type] at h
      split_ifs at h
      rw [← Option.some.inj h, multibyteSize, ← Nat.add_assoc, ← Nat.add_assoc]
      refine ⟨by omega, ?_⟩
      rw [Nat.add_mul_mod_self_left, Nat.add_mul_mod_self_left]
      exact add_self_mod aligned
    | optimized64 =>
      simp only [type] at h
      split_ifs at h with two
      rw [← Option.some.inj h, one two.1]
      exact ⟨by omega, add_self_mod aligned⟩
    | word01 =>
      simp only [type] at h
      split_ifs at h with two
      rw [← Option.some.inj h, one two.1]
      exact ⟨by omega, add_self_mod aligned⟩

/-- A playback that is over looks at nothing more. -/
theorem tracedLoop_over {fuel : Nat} {t : Traced (Nat → UInt8)}
    (h : t.playback.cancel = true ∨ c.backingSize ≤ t.playback.address) :
    tracedLoop (memStore c) c fuel t = t := by
  cases fuel with
  | zero => rfl
  | succ fuel => rw [tracedLoop, if_pos h]

/-- The playback from an address on is in bounds if and only if every entry it looks
at fits. -/
theorem tracedLoop_inBounds (fuel : Nat) : ∀ (t : Traced (Nat → UInt8)),
    t.playback.state.store = m → t.playback.cancel = false → t.playback.address % c.ws = 0 →
    c.backingSize ≤ t.playback.address + fuel →
    ((∀ x ∈ (tracedLoop (memStore c) c fuel t).accesses, x.InBounds c) ↔
      (∀ x ∈ t.accesses, x.InBounds c) ∧
        ∀ a, ReachedFrom c m t.playback.address a → EntryFits c m a) := by
  induction fuel with
  | zero =>
    intro t _ _ _ past
    rw [tracedLoop]
    refine ⟨fun h => ⟨h, fun a reached => ?_⟩, fun h => h.1⟩
    cases reached <;> omega
  | succ fuel ih =>
    intro t hs going aligned enough
    by_cases past : c.backingSize ≤ t.playback.address
    · rw [tracedLoop_over (Or.inr past)]
      refine ⟨fun h => ⟨h, fun a reached => ?_⟩, fun h => h.1⟩
      cases reached <;> omega
    · have room : t.playback.address + c.ws ≤ c.backingSize :=
        add_le_of_lt_of_mod aligned c.backing_mod_ws (by omega)
      obtain ⟨accesses, store, next⟩ := tracedStep_mem t hs
      rw [tracedLoop, if_neg (by simp [going]; omega)]
      have here : (∀ x ∈ (tracedStep (memStore c) c t).accesses, x.InBounds c) ↔
          (∀ x ∈ t.accesses, x.InBounds c) ∧ EntryFits c m t.playback.address := by
        rw [accesses, Traced.note_accesses, List.forall_mem_append, List.forall_mem_append,
          entryAccesses_inBounds room]
        simp [Access.InBounds, room]
      cases hend : entryEnd c m t.playback.address with
      | none =>
        simp only [hend] at next
        rw [tracedLoop_over (Or.inl next), here]
        refine and_congr_right fun _ => ⟨fun fits a reached => ?_, fun h => h _ (.here (by omega))⟩
        cases reached with
        | here => exact fits
        | later _ on => rw [hend] at on; cases on
      | some b =>
        simp only [hend, Traced.note_playback] at next
        obtain ⟨further, aligned'⟩ := entryEnd_spec hend aligned
        rw [ih _ store (next.1.trans going) (next.2 ▸ aligned') (by rw [next.2]; omega), here, and_assoc,
          next.2]
        refine and_congr_right fun _ => ⟨fun h a reached => ?_, fun h => ⟨h _ (.here (by omega)), fun a reached =>
          h a (.later (by omega) hend reached)⟩⟩
        cases reached with
        | here => exact h.1
        | later _ on rest =>
          rw [hend] at on
          cases on
          exact h.2 a rest

/-! ## The whole start -/

theorem bulkAccesses_mem (word : Nat → List Access) (n : Nat) : ∀ a : Nat,
    bulkAccesses (memStore c) c word m a n = (positionsFrom c.ws a n).flatMap word := by
  induction n with
  | zero => exact fun a => rfl
  | succ n ih =>
    intro a
    rw [bulkAccesses, positionsFrom, List.flatMap_cons]
    exact congrArg _ (ih (a + c.ws))

theorem readBulk_mem (n : Nat) : ∀ a : Nat,
    readBulk (memStore c) c m a n = (true, slice m a (c.ws * n), m) := by
  induction n with
  | zero => exact fun a => rfl
  | succ n ih =>
    intro a
    have hn : c.ws * (n + 1) = c.ws + c.ws * n := by ring
    rw [readBulk, show (memStore c).read m a = (some (slice m a c.ws), m) from rfl]
    simp only [ih, hn, slice_add]

theorem readConsolidated_mem (s : State (Nat → UInt8)) :
    ∃ s', readConsolidated (memStore c) c s = (.success, s') ∧ s'.store = s.store := by
  rw [readConsolidated]
  simp only [readBulk_mem, if_true]
  split_ifs
  · exact ⟨_, rfl, rfl⟩
  · exact ⟨_, rfl, rfl⟩

/-- The consolidated area is inside the store; its checksum need not be. -/
theorem consolidatedAccesses_inBounds (s : State (Nat → UInt8)) :
    (∀ x ∈ consolidatedAccesses (memStore c) c s, x.InBounds c) ↔ c.logBase ≤ c.backingSize := by
  have whole := c.ws_mul_logical_div
  have sum := c.ws_mul_eight_div
  have twice := c.backing_ge
  have data : ∀ x ∈ (positionsFrom c.ws 0 (c.logicalSize / c.ws)).flatMap
      (fun a => [Access.read a, .cache a c.ws]), x.InBounds c := by
    intro x hx
    obtain ⟨a, ha, hx⟩ := List.mem_flatMap.1 hx
    have inside := (positionsFrom_below (b := c.logicalSize) (c.logicalSize / c.ws) (Nat.zero_le _)).2
      (by rw [whole, Nat.zero_add]) a ha
    rcases List.mem_pair.1 hx with rfl | rfl
    · exact Nat.le_trans inside (by omega)
    · exact inside
  rw [consolidatedAccesses]
  simp only [readBulk_mem, bulkAccesses_mem]
  have words : (positionsFrom c.ws c.logicalSize (8 / c.ws)).flatMap (fun a => [Access.read a]) =
      (positionsFrom c.ws c.logicalSize (8 / c.ws)).map Access.read := List.map_eq_flatMap.symm
  rw [List.forall_mem_append, List.forall_mem_append, words, reads_inBounds _ (by omega), sum]
  constructor
  · exact fun h => h.2.1
  · intro h
    refine ⟨data, h, ?_⟩
    split_ifs
    · simp
    · simp [Access.InBounds]

/-- A start on a store that is its contents stays in bounds if and only if the
checksum of the consolidated data is inside the store and every entry of the log
that is replayed fits. -/
theorem startup_in_bounds_iff (s : State (Nat → UInt8)) :
    (∀ x ∈ initAccesses (memStore c) c s, x.InBounds c) ↔
      c.logBase ≤ c.backingSize ∧ ∀ a, ReachedFrom c s.store c.logBase a → EntryFits c s.store a := by
  have inside : Access.InBounds c (.cache 0 c.logicalSize) := by simp [Access.InBounds]
  obtain ⟨s', consolidated, kept⟩ := readConsolidated_mem (c := c) (clearCache c s)
  have loop := tracedLoop_inBounds (c := c) (m := s.store) c.backingSize
    ⟨⟨c.logBase, false, .success, s'⟩, []⟩ kept rfl c.logBase_mod_ws (Nat.le_add_left _ _)
  have accesses : initAccesses (memStore c) c s =
      .cache 0 c.logicalSize :: loadAccesses (memStore c) c (clearCache c s) := rfl
  rw [accesses, loadAccesses, consolidated, List.forall_mem_cons]
  simp only
  rw [List.forall_mem_append, List.forall_mem_append, loop, consolidatedAccesses_inBounds]
  have last : ∀ x ∈ (if (playbackLog (memStore c) c s').1 = .failed then
      [Access.cache 0 c.logicalSize] else []), x.InBounds c := by
    split_ifs
    · simpa using inside
    · simp
  constructor
  · exact fun h => ⟨h.2.1, h.2.2.1.2⟩
  · exact fun h => ⟨inside, h.1, ⟨by simp, h.2⟩, last⟩

end Contents

/-! ## Two corrupted logs -/

theorem narrowConfig_aligned : 16 % WriteSize.two.bytes = 0 := by decide

/-- Sixteen bytes of data and eight of log, in words of two bytes. -/
def narrowConfig : Config where
  writeSize := .two
  logicalSize := 16
  backingSize := 32
  uninit := fun _ => 0
  backing_ge := by decide
  logical_aligned := narrowConfig_aligned
  backing_multiple := by decide
  backing_lt := by decide

/-- Three one-word entries, then a multi-byte entry in the last word: the rest of its
header is read behind the store. -/
def truncatedLog : Nat → UInt8 := fun i => if i < 24 then 0 else if i < 30 then 0x40 else 0x08

/-- A multi-byte entry of seven bytes for address 0: two of them are copied from
behind the entry. -/
def longEntryLog : Nat → UInt8 := fun i => if i = 24 then 0x38 else 0

theorem startup_out_of_bounds :
    (.read 32 ∈ initAccesses (memStore narrowConfig) narrowConfig (State.start truncatedLog) ∧
      ¬ (Access.read 32).InBounds narrowConfig) ∧
    (.entry 3 7 8 ∈ initAccesses (memStore narrowConfig) narrowConfig (State.start longEntryLog) ∧
      ¬ (Access.entry 3 7 8).InBounds narrowConfig) := by
  decide +kernel

end QmkFirmware.WearLeveling
