import QmkFirmware.Lib.Run
import QmkFirmware.Split.Code

/-!
# Remote calls over the split link

`transactions.c`: the master sends an info block with a transaction and two lengths, then the
request, then the number of the transaction to execute, and reads the response. The slave
takes the lengths over before it has looked at the checksum of the block.
-/

namespace QmkFirmware.Split.Rpc
open Lib

/-- `PUT_RPC_INFO`, which the other transactions of a remote call follow, `NUM_TOTAL_TRANSACTIONS`, `RPC_M2S_BUFFER_SIZE`,
`RPC_S2M_BUFFER_SIZE` and `crc8` -/
structure Config where
  putRpcInfo : Nat
  numTotalTransactions : Nat
  rpcM2sBufferSize : Nat
  rpcS2mBufferSize : Nat
  crc8 : List (BitVec 8) → BitVec 8
  room : putRpcInfo + 3 < numTotalTransactions

namespace Config

variable (cfg : Config)

/-- `PUT_RPC_REQ_DATA` -/
def putRpcReqData : Nat := cfg.putRpcInfo + 1
/-- `EXECUTE_RPC` -/
def executeRpc : Nat := cfg.putRpcInfo + 2
/-- `GET_RPC_RESP_DATA` -/
def getRpcRespData : Nat := cfg.putRpcInfo + 3

end Config

/-- The payload of `rpc_sync_info_t`; the number of the transaction has a sign. -/
structure Payload where
  transactionId : BitVec 8
  m2sLength : BitVec 8
  s2mLength : BitVec 8
  deriving DecidableEq

def Payload.bytes (p : Payload) : List (BitVec 8) := [p.transactionId, p.m2sLength, p.s2mLength]

/-- `rpc_sync_info_t` -/
structure Info where
  checksum : BitVec 8
  payload : Payload
  deriving DecidableEq

/-- The callbacks of this file, and any other one -/
inductive Callback where
  | slaveRpcInfo | slaveRpcExec | other
  deriving DecidableEq

/-- `split_transaction_desc_t`, without the offsets -/
structure Desc where
  initiator2targetBufferSize : BitVec 8
  target2initiatorBufferSize : BitVec 8
  slaveCallback : Option Callback

/-- `split_transaction_table` and `split_shmem->rpc_info` of a half -/
structure State where
  table : Nat → Desc
  rpcInfo : Info

/-- Whether a callback is registered for the other transactions, and their sizes; the table starts with the full buffers. -/
def initialTable (cfg : Config) (others : Nat → BitVec 8 × BitVec 8 × Bool) (i : Nat) : Desc :=
  if i = cfg.putRpcInfo then ⟨4, 0, some .slaveRpcInfo⟩
  else if i = cfg.putRpcReqData then ⟨BitVec.ofNat 8 cfg.rpcM2sBufferSize, 0, none⟩
  else if i = cfg.executeRpc then ⟨1, 0, some .slaveRpcExec⟩
  else if i = cfg.getRpcRespData then ⟨0, BitVec.ofNat 8 cfg.rpcS2mBufferSize, none⟩
  else ⟨(others i).1, (others i).2.1, if (others i).2.2 then some .other else none⟩

/-- What the slave touches: an entry of the table, the two buffers by a callback that is called with their lengths, the request
buffer when the request comes, and the response buffer when the response goes -/
inductive Access where
  | entry (i : Int)
  | call (m2sLength s2mLength : BitVec 8)
  | request (length : BitVec 8)
  | response (length : BitVec 8)
  deriving DecidableEq

/-- An access of the table or the buffers -/
def Access.Inside (cfg : Config) : Access → Prop
  | .entry i => 0 ≤ i ∧ i < cfg.numTotalTransactions
  | .call m2sLength s2mLength => m2sLength.toNat ≤ cfg.rpcM2sBufferSize ∧ s2mLength.toNat ≤ cfg.rpcS2mBufferSize
  | .request length => length.toNat ≤ cfg.rpcM2sBufferSize
  | .response length => length.toNat ≤ cfg.rpcS2mBufferSize

instance (cfg : Config) : (a : Access) → Decidable (a.Inside cfg)
  | .entry _ => inferInstanceAs (Decidable (_ ∧ _))
  | .call _ _ => inferInstanceAs (Decidable (_ ∧ _))
  | .request _ => inferInstanceAs (Decidable (_ ≤ _))
  | .response _ => inferInstanceAs (Decidable (_ ≤ _))

/-- What comes over the link: an info block, bytes of one whose callback is not called, the request, the transaction to execute,
and the request for the response -/
inductive Event where
  | info (block : Info)
  | stray (block : Info)
  | request
  | execute (transactionId : BitVec 8)
  | response

namespace State

variable (cfg : Config)

/-- `slave_rpc_info_callback` -/
def slaveRpcInfoCallback (s : State) : State :=
  let table := Function.update s.table cfg.putRpcReqData
    { s.table cfg.putRpcReqData with initiator2targetBufferSize := s.rpcInfo.payload.m2sLength }
  { s with
    table := Function.update table cfg.getRpcRespData
      { table cfg.getRpcRespData with target2initiatorBufferSize := s.rpcInfo.payload.s2mLength } }

/-- `slave_rpc_exec_callback`. Nothing is said of what a callback does that is found outside the table; the one of `EXECUTE_RPC`
itself would make the same accesses again and again. -/
def slaveRpcExecCallback (s : State) : List Access × State :=
  if cfg.crc8 s.rpcInfo.payload.bytes ≠ s.rpcInfo.checksum then ([], s)
  else
    let transactionId := s.rpcInfo.payload.transactionId.toInt
    if transactionId < cfg.numTotalTransactions then
      let call := Access.call s.rpcInfo.payload.m2sLength s.rpcInfo.payload.s2mLength
      if transactionId < 0 then ([.entry transactionId], s)
      else match (s.table transactionId.toNat).slaveCallback with
        | none => ([.entry transactionId], s)
        | some .slaveRpcInfo => ([.entry transactionId, call], s.slaveRpcInfoCallback cfg)
        | some _ => ([.entry transactionId, call], s)
    else ([], s)

/-- What the slave does when something comes -/
def receive (s : State) : Event → List Access × State
  | .info block => ([.entry cfg.putRpcInfo], { s with rpcInfo := block }.slaveRpcInfoCallback cfg)
  | .stray block => ([], { s with rpcInfo := block })
  | .request => ([.entry cfg.putRpcReqData, .request (s.table cfg.putRpcReqData).initiator2targetBufferSize], s)
  | .execute transactionId =>
    let s := { s with rpcInfo := { s.rpcInfo with payload := { s.rpcInfo.payload with transactionId } } }
    let (accesses, s) := s.slaveRpcExecCallback cfg
    (.entry cfg.executeRpc :: accesses, s)
  | .response => ([.entry cfg.getRpcRespData, .response (s.table cfg.getRpcRespData).target2initiatorBufferSize], s)

def step (s : State) (e : Event) : State := (s.receive cfg e).2

/-- `transaction_rpc_exec` up to the first transaction: the table of the master and the info block, if the transaction may be
executed -/
def transactionRpcExec (connected : Bool) (transactionId m2sLength s2mLength : BitVec 8) (s : State) : Option (Info × State) :=
  if !connected then none
  else if transactionId.toInt ≤ cfg.getRpcRespData then none
  else if cfg.rpcM2sBufferSize < m2sLength.toNat then none
  else if cfg.rpcS2mBufferSize < s2mLength.toNat then none
  else
    let payload := ⟨transactionId, m2sLength, s2mLength⟩
    let table := Function.update s.table cfg.putRpcReqData
      { s.table cfg.putRpcReqData with initiator2targetBufferSize := m2sLength }
    some (⟨cfg.crc8 payload.bytes, payload⟩,
      { s with
        table := Function.update table cfg.getRpcRespData
          { table cfg.getRpcRespData with target2initiatorBufferSize := s2mLength } })

end State

/-! ## What the master sends -/

/-- The lengths fit into the buffers. -/
def Payload.Fits (cfg : Config) (p : Payload) : Prop :=
  p.m2sLength.toNat ≤ cfg.rpcM2sBufferSize ∧ p.s2mLength.toNat ≤ cfg.rpcS2mBufferSize

instance (cfg : Config) (p : Payload) : Decidable (p.Fits cfg) := inferInstanceAs (Decidable (_ ∧ _))

/-- The sizes in the table of the two transactions that move the data -/
def State.Sized (cfg : Config) (s : State) : Prop :=
  (s.table cfg.putRpcReqData).initiator2targetBufferSize.toNat ≤ cfg.rpcM2sBufferSize ∧
  (s.table cfg.getRpcRespData).target2initiatorBufferSize.toNat ≤ cfg.rpcS2mBufferSize

instance (cfg : Config) (s : State) : Decidable (s.Sized cfg) := inferInstanceAs (Decidable (_ ∧ _))

section Callback

variable {cfg : Config} {s : State} {others : Nat → BitVec 8 × BitVec 8 × Bool}

theorem resp_ne_req (cfg : Config) : cfg.getRpcRespData ≠ cfg.putRpcReqData := by
  unfold Config.getRpcRespData Config.putRpcReqData
  omega

theorem initialTable_sized (info : Info) : State.Sized cfg ⟨initialTable cfg others, info⟩ := by
  have req : initialTable cfg others cfg.putRpcReqData = ⟨BitVec.ofNat 8 cfg.rpcM2sBufferSize, 0, none⟩ := by
    unfold initialTable Config.putRpcReqData
    rw [if_neg (by omega), if_pos rfl]
  have resp : initialTable cfg others cfg.getRpcRespData = ⟨0, BitVec.ofNat 8 cfg.rpcS2mBufferSize, none⟩ := by
    unfold initialTable Config.putRpcReqData Config.executeRpc Config.getRpcRespData
    rw [if_neg (by omega), if_neg (by omega), if_neg (by omega), if_pos rfl]
  unfold State.Sized
  dsimp only
  rw [req, resp]
  exact ⟨Nat.mod_le _ _, Nat.mod_le _ _⟩

/-- The sizes are the lengths of the block, whatever they are. -/
theorem slaveRpcInfoCallback_sized : (s.slaveRpcInfoCallback cfg).Sized cfg ↔ s.rpcInfo.payload.Fits cfg := by
  unfold State.Sized State.slaveRpcInfoCallback Payload.Fits
  dsimp only
  rw [Function.update_of_ne (resp_ne_req cfg).symm, Function.update_self, Function.update_self]

/-- The master looks at the lengths before it sends them. -/
theorem transactionRpcExec_fits {connected : Bool} {id m2s s2m : BitVec 8} {sent : Info × State}
    (sends : s.transactionRpcExec cfg connected id m2s s2m = some sent) :
    sent.1.payload.Fits cfg ∧ sent.2.Sized cfg ∧ sent.1.checksum = cfg.crc8 sent.1.payload.bytes := by
  unfold State.transactionRpcExec at sends
  split at sends
  next => contradiction
  split at sends
  next => contradiction
  split at sends
  next => contradiction
  rename_i m2sFits
  split at sends
  next => contradiction
  rename_i s2mFits
  cases sends
  have fits : Payload.Fits cfg ⟨id, m2s, s2m⟩ := ⟨Nat.le_of_not_lt m2sFits, Nat.le_of_not_lt s2mFits⟩
  refine ⟨fits, ?_, rfl⟩
  have table := @slaveRpcInfoCallback_sized cfg { s with rpcInfo := ⟨0, ⟨id, m2s, s2m⟩⟩ }
  exact table.2 fits

end Callback

/-! ## What the slave takes over -/

/-- The sizes are within the buffers after the step, and so is all that it touches. -/
def State.Right (cfg : Config) (s : State) (e : Event) : Prop :=
  (s.step cfg e).Sized cfg ∧ ∀ a ∈ (s.receive cfg e).1, a.Inside cfg

/-- Nothing but the sender sees to it that the lengths of an info block fit, and that the transaction to execute is not negative;
where the checksum is right and there is a callback, the lengths that are left over in memory fit too. -/
def State.Fine (cfg : Config) (s : State) : Event → Prop
  | .info block => block.payload.Fits cfg
  | .stray _ | .request | .response => True
  | .execute transactionId =>
    cfg.crc8 { s.rpcInfo.payload with transactionId }.bytes = s.rpcInfo.checksum → transactionId.toInt < cfg.numTotalTransactions →
      0 ≤ transactionId.toInt ∧ ((s.table transactionId.toInt.toNat).slaveCallback ≠ none → s.rpcInfo.payload.Fits cfg)

instance (cfg : Config) (s : State) (e : Event) : Decidable (s.Right cfg e) := inferInstanceAs (Decidable (_ ∧ _))

namespace State

variable {cfg : Config} {s : State}

/-- The callback of `EXECUTE_RPC`, with the number that has just been written -/
theorem exec_right (sized : s.Sized cfg) :
    ((s.slaveRpcExecCallback cfg).2.Sized cfg ∧ ∀ a ∈ (s.slaveRpcExecCallback cfg).1, a.Inside cfg) ↔
      (cfg.crc8 s.rpcInfo.payload.bytes = s.rpcInfo.checksum → s.rpcInfo.payload.transactionId.toInt < cfg.numTotalTransactions →
        0 ≤ s.rpcInfo.payload.transactionId.toInt ∧
          ((s.table s.rpcInfo.payload.transactionId.toInt.toNat).slaveCallback ≠ none → s.rpcInfo.payload.Fits cfg)) := by
  unfold slaveRpcExecCallback
  by_cases whole : cfg.crc8 s.rpcInfo.payload.bytes = s.rpcInfo.checksum
  swap
  · rw [if_pos whole]
    simp only [whole, sized, List.not_mem_nil, false_implies, implies_true, and_self]
  rw [if_neg (not_not_intro whole)]
  by_cases known : s.rpcInfo.payload.transactionId.toInt < cfg.numTotalTransactions
  swap
  · simp only [known, if_false, sized, List.not_mem_nil, false_implies, implies_true, and_self]
  by_cases negative : s.rpcInfo.payload.transactionId.toInt < 0
  · have outside : ¬ 0 ≤ s.rpcInfo.payload.transactionId.toInt := Int.not_le.2 negative
    simp only [known, negative, outside, if_true, whole, true_implies, false_and, List.mem_singleton, forall_eq,
      Access.Inside, and_false]
  have inside : 0 ≤ s.rpcInfo.payload.transactionId.toInt := Int.not_lt.1 negative
  have entry : Access.Inside cfg (.entry s.rpcInfo.payload.transactionId.toInt) := ⟨inside, known⟩
  simp only [known, negative, inside, if_true, if_false, whole, true_implies, true_and]
  -- whatever the callback does, it is handed the lengths of the block
  cases found : (s.table s.rpcInfo.payload.transactionId.toInt.toNat).slaveCallback with
  | none => simp only [sized, entry, List.mem_singleton, forall_eq, ne_eq, not_true_eq_false, false_implies, and_self]
  | some callback =>
    have some_ne : some callback ≠ none := Option.some_ne_none callback
    cases callback with
    | slaveRpcInfo =>
      simp only [slaveRpcInfoCallback_sized, List.mem_cons, List.not_mem_nil, or_false, forall_eq_or_imp, forall_eq, entry, ne_eq,
        some_ne, not_false_eq_true, true_implies, true_and]
      exact ⟨And.left, fun fits => ⟨fits, fits⟩⟩
    | slaveRpcExec | other =>
      simp only [sized, List.mem_cons, List.not_mem_nil, or_false, forall_eq_or_imp, forall_eq, entry, ne_eq,
        some_ne, not_false_eq_true, true_implies, true_and]
      exact Iff.rfl

theorem right_iff_fine (e : Event) (sized : s.Sized cfg) : s.Right cfg e ↔ s.Fine cfg e := by
  have room := cfg.room
  cases e with
  | info block =>
    have entry : Access.Inside cfg (.entry cfg.putRpcInfo) := ⟨by omega, by omega⟩
    unfold Right step receive
    simp only [slaveRpcInfoCallback_sized, List.mem_singleton, forall_eq, entry, and_true]
    exact Iff.rfl
  | stray block => exact iff_of_true ⟨sized, List.forall_mem_nil _⟩ trivial
  | request =>
    have entry : Access.Inside cfg (.entry cfg.putRpcReqData) := ⟨by omega, by unfold Config.putRpcReqData; omega⟩
    refine iff_of_true ⟨sized, ?_⟩ trivial
    exact List.forall_mem_cons.2 ⟨entry, List.forall_mem_singleton.2 sized.1⟩
  | execute transactionId =>
    have entry : Access.Inside cfg (.entry cfg.executeRpc) := ⟨by omega, by unfold Config.executeRpc; omega⟩
    have right := exec_right
      (s := { s with rpcInfo := { s.rpcInfo with payload := { s.rpcInfo.payload with transactionId } } }) sized
    unfold Right step receive
    simp only [List.mem_cons, forall_eq_or_imp, entry, true_and]
    exact right
  | response =>
    have entry : Access.Inside cfg (.entry cfg.getRpcRespData) := ⟨by omega, by unfold Config.getRpcRespData; omega⟩
    refine iff_of_true ⟨sized, ?_⟩ trivial
    exact List.forall_mem_cons.2 ⟨entry, List.forall_mem_singleton.2 sized.2⟩

/-- The slave stays within its table and its buffers in exactly the runs in which the other half has seen to it. -/
theorem inside_iff_fine (cfg : Config) (others : Nat → BitVec 8 × BitVec 8 × Bool) (info : Info) (events : List Event) :
    Along (step cfg) (Right cfg) ⟨initialTable cfg others, info⟩ events ↔
      Along (step cfg) (Fine cfg) ⟨initialTable cfg others, info⟩ events := by
  apply Along.congr (Sized cfg)
  · exact fun s e sized => right_iff_fine e sized
  · exact fun s e _ right => right.1
  · exact initialTable_sized info

end State

/-- A half with buffers of 32 bytes -/
def small : Config where
  putRpcInfo := 20
  numTotalTransactions := 25
  rpcM2sBufferSize := 32
  rpcS2mBufferSize := 32
  crc8 bytes := (Split.crc8 (bytes.map UInt8.ofBitVec)).toBitVec
  room := by decide

/-- A block whose checksum is wrong makes the request 255 bytes long, and a transaction −1 with the right checksum is looked up in
front of the table. -/
theorem wrong_block_taken :
    ¬ Along (State.step small) (State.Right small) ⟨initialTable small fun _ => (0, 0, true), ⟨0, ⟨0, 0, 0⟩⟩⟩
        [.info ⟨0, ⟨24, 255, 0⟩⟩] ∧
      ¬ Along (State.step small) (State.Right small) ⟨initialTable small fun _ => (0, 0, true), ⟨0, ⟨0, 0, 0⟩⟩⟩
        [.info ⟨0, ⟨255, 0, 0⟩⟩, .execute 255] := by
  decide +kernel

end QmkFirmware.Split.Rpc
