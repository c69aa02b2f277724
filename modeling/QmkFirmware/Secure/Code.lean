import Mathlib

/-!
# Secure

`secure.c`: a lock that opens when a sequence of keys is pressed after a request.
The progress through the sequence is a variable of `secure_keypress_event` alone.
-/

namespace QmkFirmware.Secure

/-- `secure_status_t` -/
inductive SecureStatus where
  | locked | pending | unlocked
  deriving DecidableEq, Repr

/-- `SECURE_UNLOCK_SEQUENCE`, and `SECURE_UNLOCK_TIMEOUT` and `SECURE_IDLE_TIMEOUT`, which are off at 0 -/
structure Config where
  sequence : List (UInt8 × UInt8)
  unlockTimeout : Nat
  idleTimeout : Nat
  nonempty : sequence ≠ []

/-- The variables of `secure.c`, and the 32-bit timer -/
structure State where
  secureStatus : SecureStatus
  unlockTime : UInt32
  idleTime : UInt32
  offset : UInt8
  timer : UInt32
  deriving DecidableEq

namespace State

def initial : State := ⟨.locked, 0, 0, 0, 0⟩

/-- `secure_lock` -/
def lock (s : State) : State := { s with secureStatus := .locked }

/-- `secure_unlock` -/
def unlock (s : State) : State := { s with secureStatus := .unlocked, idleTime := s.timer }

/-- `secure_request_unlock` -/
def requestUnlock (s : State) : State :=
  if s.secureStatus = .locked then { s with secureStatus := .pending, unlockTime := s.timer } else s

/-- `secure_activity_event` -/
def activityEvent (s : State) : State :=
  if s.secureStatus = .unlocked then { s with idleTime := s.timer } else s

/-- `secure_keypress_event` -/
def keypressEvent (cfg : Config) (row col : UInt8) (s : State) : State :=
  if cfg.sequence[s.offset.toNat]? = some (row, col) then
    let s := { s with offset := s.offset + 1 }
    -- `sequence_len` has eight bits
    if s.offset = UInt8.ofNat cfg.sequence.length then { s with offset := 0 }.unlock else s
  else { s with offset := 0 }.lock

/-- `preprocess_secure`; a key that it lets through is none of its own. -/
def preprocessSecure (cfg : Config) (row col : UInt8) (pressed : Bool) (s : State) : State :=
  if s.secureStatus = .pending then if pressed then s.keypressEvent cfg row col else s else s

/-- `secure_task` -/
def task (cfg : Config) (s : State) : State :=
  let s := if cfg.unlockTimeout ≠ 0 ∧ s.secureStatus = .pending ∧ cfg.unlockTimeout ≤ (s.timer - s.unlockTime).toNat
    then s.lock else s
  if cfg.idleTimeout ≠ 0 ∧ s.secureStatus = .unlocked ∧ cfg.idleTimeout ≤ (s.timer - s.idleTime).toNat
    then s.lock else s

end State

end QmkFirmware.Secure
