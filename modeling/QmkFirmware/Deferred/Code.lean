import Mathlib

/-!
# Deferred executors

The functions of `deferred_exec.c` for one table. A callback can do anything between its
start and its end, so the scan of the table stops at each callback: the calls that the
callback makes are further calls, and its return is an event of its own.
-/

namespace QmkFirmware.Deferred

variable {n : Nat} {F A : Type}

/-- `deferred_executor_t`; `none` is `NULL`. -/
structure Executor (F A : Type) where
  token : BitVec 8
  triggerTime : BitVec 32
  callback : Option F
  cbArg : Option A

/-- A free entry -/
def Executor.clear : Executor F A := ⟨0, 0, none, none⟩

/-- A table, `current_token`, the last execution time of the table and the scan: its time and the
entry whose callback runs -/
structure State (n : Nat) (F A : Type) where
  table : Fin n → Executor F A
  currentToken : BitVec 8
  lastExecutionTime : BitVec 32
  running : Option (BitVec 32 × Fin n)

/-- Everything is zero at the start. -/
def initial : State n F A := ⟨fun _ => .clear, 0, 0, none⟩

/-- `token_can_be_used` -/
def tokenCanBeUsed (table : Fin n → Executor F A) (token : BitVec 8) : Bool :=
  token != 0 && decide (∀ i, (table i).token ≠ token)

/-- The loop of `allocate_token`: `current_token` after it, and what is returned. It is back at the
first token after 256 turns. -/
def allocateFrom (table : Fin n → Executor F A) (first : BitVec 8) : (turns : Nat) → BitVec 8 → BitVec 8 × BitVec 8
  | 0, current => (current, 0)
  | turns + 1, current =>
    if tokenCanBeUsed table current then (current, current)
    else if current + 1 = first then (current + 1, 0)
    else allocateFrom table first turns (current + 1)

namespace State

/-- `allocate_token` -/
def allocateToken (s : State n F A) : State n F A × BitVec 8 :=
  let (current, token) := allocateFrom s.table (s.currentToken + 1) 256 (s.currentToken + 1)
  ({ s with currentToken := current }, token)

/-- `defer_exec_advanced` -/
def deferExec (delay : BitVec 32) (callback : Option F) (cbArg : Option A) (timer : BitVec 32) (s : State n F A) :
    State n F A × BitVec 8 :=
  if n = 0 ∨ delay = 0 ∨ callback.isNone then (s, 0)
  else match (List.finRange n).find? fun i => (s.table i).token == 0 with
    | none => (s, 0)
    | some i =>
      let (s, token) := s.allocateToken
      if token = 0 then (s, 0)
      else ({ s with table := Function.update s.table i ⟨s.currentToken, timer + delay, callback, cbArg⟩ }, s.currentToken)

/-- The entry of a token -/
def find (token : BitVec 8) (s : State n F A) : Option (Fin n) :=
  (List.finRange n).find? fun i => (s.table i).token == token

/-- `extend_deferred_exec_advanced` -/
def extendDeferredExec (token : BitVec 8) (delay timer : BitVec 32) (s : State n F A) : State n F A × Bool :=
  if n = 0 ∨ delay = 0 ∨ token = 0 then (s, false)
  else match s.find token with
    | none => (s, false)
    | some i => ({ s with table := Function.update s.table i { s.table i with triggerTime := timer + delay } }, true)

/-- `cancel_deferred_exec_advanced` -/
def cancelDeferredExec (token : BitVec 8) (s : State n F A) : State n F A × Bool :=
  if n = 0 ∨ token = 0 then (s, false)
  else match s.find token with
    | none => (s, false)
    | some i => ({ s with table := Function.update s.table i .clear }, true)

/-- The scan goes on to the next entry from an index on that is to be executed. -/
def scan (now : BitVec 32) (index : Nat) (s : State n F A) : State n F A :=
  { s with
    running := ((List.finRange n).find? fun i : Fin n =>
      decide (index ≤ i.val) && (s.table i).token != 0 && decide (((s.table i).triggerTime - now).toInt ≤ 0)).map (now, ·) }

/-- `deferred_exec_advanced_task` up to the first callback -/
def deferredExecTask (timer : BitVec 32) (s : State n F A) : State n F A :=
  if 0 < (timer - s.lastExecutionTime).toInt then { s with lastExecutionTime := timer }.scan timer 0 else s

/-- `deferred_exec_advanced_task` from the return of a callback to the next one -/
def callbackReturned (delay : BitVec 32) (now : BitVec 32) (i : Fin n) (s : State n F A) : State n F A :=
  let entry := if 0 < delay then { s.table i with triggerTime := (s.table i).triggerTime + delay } else .clear
  { s with table := Function.update s.table i entry }.scan now (i + 1)

end State

/-- What happens: time passes, one of the functions is called, at any time or by the callback that runs,
a token is allocated for another table, or the callback that runs returns. -/
inductive Event (F A : Type) where
  | wait (ms : Nat)
  | defer (delay : BitVec 32) (callback : Option F) (cbArg : Option A)
  | extend (token : BitVec 8) (delay : BitVec 32)
  | cancel (token : BitVec 8)
  | elsewhere (token : BitVec 8)
  | task
  | returned (delay : BitVec 32)

/-- What comes of it: the token that is returned, the entry whose callback starts, or nothing to note -/
inductive Answer (n : Nat) where
  | token (token : BitVec 8)
  | starts (i : Fin n)
  | nothing

/-- The callback that starts -/
def State.starts (s : State n F A) : Answer n :=
  match s.running with
  | some (_, i) => .starts i
  | none => .nothing

/-- The code's part of an event. The main loop does not run while a callback does. -/
def State.step (timer : BitVec 32) (s : State n F A) : Event F A → State n F A × Answer n
  | .wait _ => (s, .nothing)
  | .defer delay callback cbArg => let (s, token) := s.deferExec delay callback cbArg timer; (s, .token token)
  | .extend token delay => ((s.extendDeferredExec token delay timer).1, .nothing)
  | .cancel token => ((s.cancelDeferredExec token).1, .nothing)
  | .elsewhere token => ({ s with currentToken := token }, .nothing)
  | .task =>
    match s.running with
    | some _ => (s, .nothing)
    | none => (s.deferredExecTask timer, (s.deferredExecTask timer).starts)
  | .returned delay =>
    match s.running with
    | some (now, i) => (s.callbackReturned delay now i, (s.callbackReturned delay now i).starts)
    | none => (s, .nothing)

end QmkFirmware.Deferred
