import Mathlib

/-!
# The split link

The slave half publishes its matrix with a checksum, and in every scan the master reads the
checksum and, if it does not agree with the copy it has, the matrix: `transactions.c`,
`split_util.c` and `matrix_post_scan` of `matrix_common.c`. The slave runs beside the master, so
it may publish between any two transactions.
-/

namespace QmkFirmware.Split

/-- The bytes of the matrix of a half -/
abbrev Matrix := List UInt8

/-- The size of the matrix of a half, `SPLIT_MAX_CONNECTION_ERRORS`, `SPLIT_CONNECTION_CHECK_TIMEOUT` and
`FORCED_SYNC_THROTTLE_MS`, and `crc8`, which is a weak function -/
structure Config where
  bytes : Nat
  maxConnectionErrors : Nat
  connectionCheckTimeout : Nat
  forcedSyncThrottle : Nat
  crc8 : Matrix → UInt8

/-- `crc8` of `crc.c`, without the table -/
def crc8 (data : Matrix) : UInt8 :=
  data.foldl (fun crc byte =>
    (List.range 8).foldl (fun crc _ => if crc &&& 0x80 ≠ 0 then (crc <<< 1) ^^^ 0x31 else crc <<< 1) (crc ^^^ byte)) 0xff

/-- No key is pressed. -/
def Config.zeros (cfg : Config) : Matrix := List.replicate cfg.bytes 0

/-- The matrix and the checksum that a slave has published -/
structure Slave where
  matrix : Matrix
  checksum : UInt8
  deriving DecidableEq

/-- The variables of the master: its copy of the shared memory, `last_update` and `last_matrix` of
`slave_matrix_handlers_master`, `connection_errors`, `connection_check_timer`, `last_connected`, and the other half of
`matrix`. The last fields are not in the code: every matrix that was published, and which of them are in the shared
memory (none after a read that failed), in `last_matrix` and in `matrix` (none if it was reset). -/
structure World where
  slave : Slave
  shmem : Matrix
  lastUpdate : UInt32
  lastMatrix : Matrix
  connectionErrors : UInt8
  connectionCheckTimer : UInt16
  lastConnected : Bool
  thatHand : Matrix
  published : List Matrix
  held : Option Nat
  kept : Nat
  shown : Option Nat

/-- One call of `slave_matrix_handlers_master`: what the slave publishes before and after the checksum is read, the time in
milliseconds when it is looked at and when `last_update` is set, and whether the two reads succeed. A read of the matrix
that fails leaves bytes behind. -/
structure Attempt where
  before : List Matrix
  checksumRead : Bool
  elapsedAt : Nat
  between : List Matrix
  leftover : Option Matrix
  readAt : Nat

/-- One call of `matrix_post_scan`: the time of the throttle, the calls that it makes, whether all other transactions
succeed, and the time of the end -/
structure Scan where
  checkedAt : Nat
  attempts : List Attempt
  others : Bool
  endedAt : Nat

namespace World

variable (cfg : Config)

/-- At the start nothing is published. -/
def initial : World where
  slave := ⟨cfg.zeros, 0⟩
  shmem := cfg.zeros
  lastUpdate := 0
  lastMatrix := cfg.zeros
  connectionErrors := 0
  connectionCheckTimer := 0
  lastConnected := false
  thatHand := cfg.zeros
  published := [cfg.zeros]
  held := some 0
  kept := 0
  shown := none

/-- `slave_matrix_handlers_slave` -/
def publish (matrix : Matrix) (w : World) : World :=
  { w with slave := ⟨matrix, cfg.crc8 matrix⟩, published := w.published ++ [matrix] }

def publishAll (matrices : List Matrix) (w : World) : World := matrices.foldl (fun w matrix => w.publish cfg matrix) w

/-- `timer_elapsed32(*last_update) >= FORCED_SYNC_THROTTLE_MS` -/
def Forced (time : Nat) (w : World) : Prop := cfg.forcedSyncThrottle ≤ (UInt32.ofNat time - w.lastUpdate).toNat

instance (time : Nat) (w : World) : Decidable (w.Forced cfg time) := inferInstanceAs (Decidable (_ ≤ _))

/-- The copy is accepted: it becomes `last_matrix`. -/
def accept (w : World) : World := { w with lastMatrix := w.shmem, kept := w.held.getD w.kept }

/-- `slave_matrix_handlers_master`, with `read_if_checksum_mismatch` -/
def handlersMaster (a : Attempt) (w : World) : Bool × World :=
  let w := w.publishAll cfg a.before
  if a.checksumRead = false then (false, w)
  else
    let currChecksum := w.slave.checksum
    if w.Forced cfg a.elapsedAt ∨ currChecksum ≠ cfg.crc8 w.shmem then
      let w := w.publishAll cfg a.between
      match a.leftover with
      | some bytes => (false, { w with shmem := bytes, held := none })
      | none =>
        let w := { w with shmem := w.slave.matrix, held := some (w.published.length - 1) }
        if currChecksum = cfg.crc8 w.shmem then (true, { w with lastUpdate := UInt32.ofNat a.readAt }.accept) else (false, w)
    else (true, w.accept)

/-- The loop of `transaction_handler_master` -/
def attemptsMaster : (retries : Nat) → List Attempt → World → Bool × World
  | 0, _, w => (false, w)
  | _ + 1, [], w => (false, w)
  | retries + 1, a :: attempts, w =>
    match w.handlersMaster cfg a with
    | (true, w) => (true, w)
    | (false, w) => attemptsMaster retries attempts w

/-- `is_transport_connected` -/
def isTransportConnected (w : World) : Bool := w.connectionErrors.toNat < cfg.maxConnectionErrors

/-- `transport_master`; the matrix of the slave it gives is `last_matrix`. -/
def transportMaster (s : Scan) (w : World) : Bool × World :=
  let (okay, w) := w.attemptsMaster cfg (if w.isTransportConnected cfg then 10 else 1) s.attempts
  (okay && s.others, w)

/-- The throttle of `transport_master_if_connected` -/
def Throttled (time : Nat) (w : World) : Prop :=
  (0 < cfg.maxConnectionErrors ∧ 0 < cfg.connectionCheckTimeout) ∧ w.isTransportConnected cfg = false ∧
    (UInt16.ofNat time - w.connectionCheckTimer).toNat < cfg.connectionCheckTimeout

instance (time : Nat) (w : World) : Decidable (w.Throttled cfg time) := inferInstanceAs (Decidable (_ ∧ _))

/-- `transport_master_if_connected` -/
def transportMasterIfConnected (s : Scan) (w : World) : Bool × World :=
  if w.Throttled cfg s.checkedAt then (false, w)
  else
    let (okay, w) := w.transportMaster cfg s
    if cfg.maxConnectionErrors = 0 then (true, w)
    else if okay then (true, { w with connectionErrors := 0 })
    else
      let w := { w with connectionErrors := if w.connectionErrors < 255 then w.connectionErrors + 1 else w.connectionErrors }
      if 0 < cfg.connectionCheckTimeout then
        if w.isTransportConnected cfg then (true, w)
        else (false, { w with connectionCheckTimer := UInt16.ofNat s.endedAt })
      else (true, { w with connectionErrors := 0 })

/-- `matrix_post_scan`: whether it reports a change, and the state after it -/
def matrixPostScan (s : Scan) (w : World) : Bool × World :=
  match w.transportMasterIfConnected cfg s with
  | (true, w) => (w.thatHand != w.lastMatrix, { w with thatHand := w.lastMatrix, lastConnected := true, shown := some w.kept })
  | (false, w) =>
    if w.lastConnected then (true, { w with thatHand := cfg.zeros, lastConnected := false, shown := none }) else (false, w)

end World

/-- What happens: the slave publishes its matrix, or the master scans. -/
inductive Event where
  | publish (matrix : Matrix)
  | scan (s : Scan)

def World.step (cfg : Config) (w : World) : Event → World
  | .publish matrix => w.publish cfg matrix
  | .scan s => (w.matrixPostScan cfg s).2

end QmkFirmware.Split
