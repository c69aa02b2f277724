import QmkFirmware.WearLeveling.Entry

/-!
# The wear-levelling algorithm

`wear_leveling.c`, function by function. The backing store is implemented
elsewhere by a flash driver, so the code is generic in a `BackingStore`: the
store's own state type and the six calls the driver provides. The static
`wear_leveling` struct and the store's state travel together in a `State`.
-/

namespace QmkFirmware.WearLeveling
open Lib

/-- The build's sizes, with the three static asserts of the header, and what an
automatic variable holds before it is assigned. The backing store is addressed
by a `uint32_t`, so no address computed below its size wraps. -/
structure Config where
  writeSize : WriteSize
  logicalSize : Nat
  backingSize : Nat
  uninit : LogEntry
  backing_ge : logicalSize * 2 ≤ backingSize
  logical_aligned : logicalSize % writeSize.bytes = 0
  backing_multiple : backingSize % logicalSize = 0
  backing_lt : backingSize < 2 ^ 32

/-- `BACKING_STORE_WRITE_SIZE` -/
def Config.ws (c : Config) : Nat := c.writeSize.bytes

/-- The first address of the write log: eight bytes of FNV1a_64 follow the
consolidated data. -/
def Config.logBase (c : Config) : Nat := c.logicalSize + 8

/-- The driver's `backing_store_*` calls on its own state `σ`. A read that
returns false delivers no word. -/
structure BackingStore (σ : Type) where
  init : σ → Bool × σ
  unlock : σ → Bool × σ
  erase : σ → Bool × σ
  write : σ → Nat → Word → Bool × σ
  lock : σ → Bool × σ
  read : σ → Nat → Option Word × σ

/-- `wear_leveling_status_t` -/
inductive Status where
  | failed | success | consolidated
  deriving DecidableEq, Repr

/-- `backing_store_lock_status_t` -/
inductive LockStatus where
  | failure | success | unchanged
  deriving DecidableEq, Repr

/-- The static `wear_leveling` struct and the backing store. -/
structure State (σ : Type) where
  cache : Nat → UInt8
  writeAddress : Nat
  unlocked : Bool
  store : σ

/-- Static storage is zero when the program starts. -/
def State.start {σ : Type} (store : σ) : State σ := ⟨fun _ => 0, 0, false, store⟩

/-- `fnv_64a_buf` with `FNV1A_64_INIT` -/
def fnv64aBuf (bytes : List UInt8) : UInt64 :=
  bytes.foldl (fun hval b => (hval ^^^ b.toUInt64) * 0x100000001b3) 0xcbf29ce484222325

/-- The bytes of a `uint64_t`. -/
def bytesOfUInt64 (v : UInt64) : Word :=
  (List.range 8).map fun k => (v >>> (8 * UInt64.ofNat k)).toUInt8

section Code

variable {σ : Type} (d : BackingStore σ) (c : Config)

/-- `wear_leveling_unlock` -/
def unlock (s : State σ) : LockStatus × State σ :=
  if s.unlocked then (.unchanged, s)
  else
    match d.unlock s.store with
    | (false, store) => (.failure, { s with store })
    | (true, store) => (.success, { s with store, unlocked := true })

/-- `wear_leveling_lock` -/
def lock (s : State σ) : LockStatus × State σ :=
  if !s.unlocked then (.unchanged, s)
  else
    match d.lock s.store with
    | (false, store) => (.failure, { s with store })
    | (true, store) => (.success, { s with store, unlocked := false })

/-- `wear_leveling_clear_cache` -/
def clearCache (s : State σ) : State σ :=
  { s with
    cache := patch s.cache 0 (List.replicate c.logicalSize 0)
    writeAddress := c.logBase }

/-- `backing_store_read_bulk`, the weak implementation: the words read and
whether all of them were. -/
def readBulk (store : σ) (address : Nat) : Nat → Bool × Word × σ
  | 0 => (true, [], store)
  | n + 1 =>
    match d.read store address with
    | (none, store) => (false, [], store)
    | (some w, store) =>
      match readBulk store (address + c.ws) n with
      | (ok, rest, store) => (ok, w ++ rest, store)

/-- `backing_store_write_bulk`, the weak implementation, for the words that
start at `values[src]`. -/
def writeBulk (values : Nat → UInt8) (store : σ) (address src : Nat) : Nat → Bool × σ
  | 0 => (true, store)
  | n + 1 =>
    match d.write store address (slice values src c.ws) with
    | (false, store) => (false, store)
    | (true, store) => writeBulk values store (address + c.ws) (src + c.ws) n

/-- `wear_leveling_read_consolidated` -/
def readConsolidated (s : State σ) : Status × State σ :=
  match readBulk d c s.store 0 (c.logicalSize / c.ws) with
  | (ok, bytes, store) =>
    let s := { s with store, cache := patch s.cache 0 bytes }
    if ok then
      let expected := fnv64aBuf (slice s.cache 0 c.logicalSize)
      -- the result of reading the checksum is not looked at
      match readBulk d c s.store c.logicalSize (8 / c.ws) with
      | (_, sum, store) =>
        let s := { s with store }
        let entry : LogEntry := patch c.uninit 0 sum
        if entry.raw64 = bytesOfUInt64 expected then (.success, s)
        else (.success, clearCache c s)
    else (.failed, clearCache c s)

/-- `wear_leveling_write_consolidated` -/
def writeConsolidated (s : State σ) : Status × State σ :=
  match unlock d s with
  | (lockStatus, s) =>
    match writeBulk d c s.cache s.store 0 0 (c.logicalSize / c.ws) with
    | (ok, store) =>
      let sum := bytesOfUInt64 (fnv64aBuf (slice s.cache 0 c.logicalSize))
      let entry : LogEntry := patch c.uninit 0 sum
      match (if ok then writeBulk d c entry store c.logicalSize 0 (8 / c.ws) else (false, store)) with
      | (ok, store) =>
        let s := { s with store }
        let s := if lockStatus = .success then (lock d s).2 else s
        (if ok then .consolidated else .failed, s)

/-- `wear_leveling_consolidate_force` -/
def consolidateForce (s : State σ) : Status × State σ :=
  match d.erase s.store with
  | (false, store) => (.failed, { s with store })
  | (true, store) =>
    match writeConsolidated d c { s with store } with
    | (status, s) => (status, { s with writeAddress := c.logBase })

/-- `wear_leveling_consolidate_if_needed` -/
def consolidateIfNeeded (s : State σ) : Status × State σ :=
  if c.backingSize ≤ s.writeAddress then consolidateForce d c s else (.success, s)

/-- `wear_leveling_append_raw` -/
def appendRaw (s : State σ) (value : Word) : Status × State σ :=
  match d.write s.store s.writeAddress value with
  | (false, store) => (.failed, { s with store })
  | (true, store) =>
    consolidateIfNeeded d c { s with store, writeAddress := s.writeAddress + c.ws }

/-- The sequence of appends of one entry: each is made only if the one before
it reported success, and the last status is the entry's. -/
def appendAll (s : State σ) : List Word → Status × State σ
  | [] => (.success, s)
  | value :: rest =>
    match appendRaw d c s value with
    | (.success, s) => appendAll s rest
    | result => result

/-- The words `wear_leveling_write_raw_multibyte` appends for an entry. -/
def multibyteWords (log : LogEntry) (length : Nat) : List Word :=
  match c.writeSize with
  | .two =>
    [log.raw16 0, log.raw16 1] ++ (if 1 < length then [log.raw16 2] else []) ++
      (if 3 < length then [log.raw16 3] else [])
  | .four => [log.raw32 0] ++ (if 1 < length then [log.raw32 1] else [])
  | .eight => [log.raw64]

/-- `wear_leveling_write_raw_multibyte` -/
def writeRawMultibyte (s : State σ) (address : Nat) (p : List UInt8) : Status × State σ :=
  let log := patch (LogEntry.makeMultibyte address p.length) 3 p
  appendAll d c s (multibyteWords c log p.length)

/-- The loop of `wear_leveling_write_raw`; `p` is what remains to be written,
and each iteration takes at least one byte of it. -/
def writeRawLoop : Nat → State σ → Nat → List UInt8 → Status → Status × State σ
  | 0, s, _, _, status => (status, s)
  | fuel + 1, s, address, p, status =>
    if p.length = 0 then (status, s)
    else
      let v := (p.getD 1 0).toNat <<< 8 ||| (p.getD 0 0).toNat
      if c.writeSize = .two ∧ 2 ≤ p.length ∧ address % 2 = 0 ∧ address < 16384 ∧ (v = 0 ∨ v = 1) then
        match appendRaw d c s ((LogEntry.makeWord01 address v).raw16 0) with
        | (.success, s) => writeRawLoop fuel s (address + 2) (p.drop 2) .success
        | result => result
      else if c.writeSize = .two ∧ address < 64 then
        match appendRaw d c s ((LogEntry.makeOptimized64 address (p.getD 0 0)).raw16 0) with
        | (.success, s) => writeRawLoop fuel s (address + 1) (p.drop 1) .success
        | result => result
      else
        let thisLength :=
          if LogEntry.multibyteMaxBytes ≤ p.length then LogEntry.multibyteMaxBytes else p.length
        match writeRawMultibyte d c s address (p.take thisLength) with
        | (.success, s) => writeRawLoop fuel s (address + thisLength) (p.drop thisLength) .success
        | result => result

/-- `wear_leveling_write_raw` -/
def writeRaw (s : State σ) (address : Nat) (value : List UInt8) : Status × State σ :=
  writeRawLoop d c value.length s address value .success

/-- The locals of `wear_leveling_playback_log` around the state. -/
structure Playback (σ : Type) where
  address : Nat
  cancel : Bool
  status : Status
  state : State σ

/-- A failed read or an entry out of range ends the playback. -/
def Playback.fail (pb : Playback σ) : Playback σ := { pb with cancel := true, status := .failed }

/-- Reads the next word of the log into the entry from byte `at` on. -/
def fetch (pb : Playback σ) (log : LogEntry) (pos : Nat) : Option LogEntry × Playback σ :=
  match d.read pb.state.store pb.address with
  | (none, store) => (none, Playback.fail { pb with state := { pb.state with store } })
  | (some w, store) =>
    (some (patch log pos w), { pb with address := pb.address + c.ws, state := { pb.state with store } })

/-- Reads the words at the byte positions listed, giving up at the first failure. -/
def fetchAll (pb : Playback σ) (log : LogEntry) : List Nat → Option LogEntry × Playback σ
  | [] => (some log, pb)
  | pos :: rest =>
    match fetch d c pb log pos with
    | (none, pb) => (none, pb)
    | (some log, pb) => fetchAll pb log rest

/-- `memcpy` of entry bytes into the cache. -/
def Playback.copy (pb : Playback σ) (address : Nat) (bytes : List UInt8) : Playback σ :=
  { pb with state := { pb.state with cache := patch pb.state.cache address bytes } }

/-- The reader's words of a multi-byte entry after its header. -/
def payloadPositions (length : Nat) : List Nat :=
  match c.writeSize with
  | .two => (if 1 < length then [4] else []) ++ (if 3 < length then [6] else [])
  | .four => if 1 < length then [4] else []
  | .eight => []

/-- `case LOG_ENTRY_TYPE_MULTIBYTE` -/
def playbackMultibyte (pb : Playback σ) (log : LogEntry) : Playback σ :=
  match fetchAll d c pb log (if c.writeSize = .two then [2] else []) with
  | (none, pb) => pb
  | (some log, pb) =>
    let a := log.multibyteGetAddress
    let l := log.multibyteGetLength
    if c.logicalSize < a + l then pb.fail
    else
      match fetchAll d c pb log (payloadPositions c l) with
      | (none, pb) => pb
      | (some log, pb) => pb.copy a (slice log 3 l)

/-- `case LOG_ENTRY_TYPE_OPTIMIZED_64` -/
def playbackOptimized64 (pb : Playback σ) (log : LogEntry) : Playback σ :=
  let a := log.optimized64GetAddress
  if c.logicalSize ≤ a then pb.fail else pb.copy a [log.optimized64GetValue]

/-- `case LOG_ENTRY_TYPE_WORD_01` -/
def playbackWord01 (pb : Playback σ) (log : LogEntry) : Playback σ :=
  let a := log.word01GetAddress
  if c.logicalSize ≤ a + 1 then pb.fail else pb.copy a [log.word01GetValue, 0]

/-- The `switch` on the entry type. The two optimised types are compiled for a
write size of two only. -/
def playbackEntry (pb : Playback σ) (log : LogEntry) : Playback σ :=
  match log.getType with
  | some .multibyte => playbackMultibyte d c pb log
  | some .optimized64 => if c.writeSize = .two then playbackOptimized64 c pb log else pb.fail
  | some .word01 => if c.writeSize = .two then playbackWord01 c pb log else pb.fail
  | none => pb.fail

/-- One iteration of the loop of `wear_leveling_playback_log`. -/
def playbackStep (pb : Playback σ) : Playback σ :=
  match d.read pb.state.store pb.address with
  | (none, store) => Playback.fail { pb with state := { pb.state with store } }
  | (some value, store) =>
    let pb := { pb with state := { pb.state with store } }
    -- an empty slot: no more log entries
    if ∀ b ∈ value, b = 0 then { pb with cancel := true }
    else playbackEntry d c { pb with address := pb.address + c.ws } (patch c.uninit 0 value)

/-- `while (!cancel_playback && address < WEAR_LEVELING_BACKING_SIZE)`. Every
iteration that does not cancel advances the address. -/
def playbackLoop : Nat → Playback σ → Playback σ
  | 0, pb => pb
  | fuel + 1, pb =>
    if pb.cancel ∨ c.backingSize ≤ pb.address then pb else playbackLoop fuel (playbackStep d c pb)

/-- `wear_leveling_playback_log` -/
def playbackLog (s : State σ) : Status × State σ :=
  let pb := playbackLoop d c c.backingSize ⟨c.logBase, false, .success, s⟩
  let s := { pb.state with writeAddress := pb.address }
  if pb.status = .failed then consolidateForce d c s else consolidateIfNeeded d c s

/-- `wear_leveling_init` -/
def init (s : State σ) : Status × State σ :=
  let s := clearCache c s
  match d.init s.store with
  | (false, store) => (.failed, clearCache c { s with store })
  | (true, store) =>
    match readConsolidated d c { s with store } with
    | (.failed, s) => (.failed, clearCache c s)
    | (_, s) =>
      match playbackLog d c s with
      | (.failed, s) => (.failed, clearCache c s)
      | result => result

/-- `wear_leveling_erase` -/
def erase (s : State σ) : Status × State σ :=
  match unlock d s with
  | (.failure, s) => (.failed, (lock d s).2)
  | (lockStatus, s) =>
    match d.erase s.store with
    | (ret, store) =>
      let s := clearCache c { s with store }
      if lockStatus = .success then
        match lock d s with
        | (locked, s) => (if ret ∧ locked ≠ .failure then .success else .failed, s)
      else (if ret then .success else .failed, s)

/-- "Perform the actual write" of `wear_leveling_write`, with the `switch` on its status. -/
def writeAndConsolidate (s : State σ) (address : Nat) (value : List UInt8) : Status × State σ :=
  match writeRaw d c s address value with
  | (.success, s) => consolidateIfNeeded d c s
  | result => result

/-- `wear_leveling_write` -/
def write (s : State σ) (address : Nat) (value : List UInt8) : Status × State σ :=
  if c.logicalSize < address + value.length then (.failed, s)
  -- `return true`, which is `WEAR_LEVELING_SUCCESS`
  else if value = slice s.cache address value.length then (.success, s)
  else
    match unlock d { s with cache := patch s.cache address value } with
    | (.failure, s) => (.failed, (lock d s).2)
    | (lockStatus, s) =>
      match writeAndConsolidate d c s address value with
      | (status, s) =>
        if lockStatus = .success then
          match lock d s with
          | (.failure, s) => (.failed, s)
          | (_, s) => (status, s)
        else (status, s)

/-- `wear_leveling_read` -/
def read (s : State σ) (address length : Nat) : Status × List UInt8 :=
  if c.logicalSize < address + length then (.failed, []) else (.success, slice s.cache address length)

end Code

end QmkFirmware.WearLeveling
