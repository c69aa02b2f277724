import QmkFirmware.Lib.Audited
import QmkFirmware.Lib.Run

/-!
# The receive path of the CKBT51 driver

`ckbt51_task` and what it calls, with every access to an array noted. A call is
given what the UART does in it: the counts it sees and what each read gives.
-/

namespace QmkFirmware.Bluetooth
open Lib Audited

/-- The arrays: `buf` of the header, `buf` of the packet, `buf` of `ckbt51_dfu_tx`. -/
inductive Buffer where
  | header | packet | dfu
  deriving DecidableEq, Repr

def rawEpsize : Nat := 32

def Buffer.size : Buffer → Nat
  | header => 32
  | packet => 32
  | dfu => rawEpsize

structure Access where
  buffer : Buffer
  index : Int
  deriving DecidableEq, Repr

def Access.Inside (a : Access) : Prop := 0 ≤ a.index ∧ a.index < a.buffer.size

instance : DecidablePred Access.Inside := fun _ => inferInstanceAs (Decidable (_ ∧ _))

/-- The contents of an array, and of what lies around it. -/
abbrev Contents := Int → UInt8

def get (buffer : Buffer) (buf : Contents) (i : Int) : Audited Access UInt8 := note ⟨buffer, i⟩ (buf i)

def put (buffer : Buffer) (buf : Contents) (i : Int) (value : UInt8) : Audited Access Contents :=
  note ⟨buffer, i⟩ (Function.update buf i value)

def memcpy (target : Buffer) (buf : Contents) (i : Int) (source : Buffer) (data : Contents) (k : Int) (n : Nat) :
    Audited Access Contents :=
  loop (fun j buf => do put target buf (i + j) (← get source data (k + j))) n buf

/-- `event_type_t` -/
inductive EventType where
  | none | reset | discoverable | reconnecting | connected | disconnected | pincodeEntry | exitPincodeEntry
  | hidSetProtocol | hidIndicator | conectionInterval
  deriving DecidableEq, Repr

/-- `bluetooth_event_t` -/
structure Event where
  evtType : EventType
  param : UInt8
  deriving DecidableEq, Repr

/-- What the receive path asks of the rest of the firmware. -/
inductive Effect where
  | setRetry (times : Nat)
  | setInterval (ms : Nat)
  | defaultAckHandler
  | sendConnEvtAck
  | enqueue (event : Event)
  | voltage (value : UInt16)
  | rawHidSend (buf : List UInt8)

/-- The statics of `ckbt51_task`, and `reg_offset` -/
structure Ckbt51 where
  waitForNewPkt : Bool
  len : UInt8
  sn : UInt8
  regOffset : UInt8

def Ckbt51.init : Ckbt51 := ⟨true, 0xFF, 0, 0xFF⟩

/-- The UART in one call: `q_counter` at the two places that look at it, what the reads of
the header give, what those of the packet give (nothing: a timeout), and what the stack
holds around the arrays. -/
structure Uart where
  queued : Nat
  header : Fin 5 → UInt8
  queuedThen : Nat
  packet : Nat → Option UInt8
  stack : Contents

/-- A zeroed array. -/
def Uart.zeroed (u : Uart) (buffer : Buffer) : Contents :=
  fun i => if 0 ≤ i ∧ i < buffer.size then 0 else u.stack i

section Code

/-- The first half of `ckbt51_task` -/
def readHeader (s : Ckbt51) (u : Uart) : Audited Access Ckbt51 :=
  if s.waitForNewPkt ∧ 5 ≤ u.queued ∧ u.header 0 = 0xAA ∧ u.header 1 = 0x57 then do
    let buf ← put .header (u.zeroed .header) 0 (u.header 2)
    let buf ← put .header buf 1 (u.header 3)
    let buf ← put .header buf 2 (u.header 4)
    let length ← get .header buf 0
    let inverse ← get .header buf 1
    if ~~~length = inverse then
      let len ← get .header buf 0
      let sn ← get .header buf 2
      pure { s with len, sn, waitForNewPkt := false }
    else pure s
  else pure s

/-- `DEFAULT_REPORT_INVERVAL_MS` -/
def defaultReportIntervalMs : Nat := 3

/-- `ack_handler`; `data` is `buf + 1`. -/
def ackHandler (buf : Contents) : Audited Access (List Effect) := do
  let cmd ← get .packet buf 2
  if cmd = 0x11 ∨ cmd = 0x12 ∨ cmd = 0x13 ∨ cmd = 0x14 ∨ cmd = 0x16 then
    let status ← get .packet buf 3
    if status = 0x00 then pure [.setRetry 0, .setInterval defaultReportIntervalMs]
    else if status = 0x02 then pure [.setRetry 0, .setInterval (defaultReportIntervalMs + 5)]
    else if status = 0x03 then pure [.setRetry 10]
    else pure []
  else pure [.defaultAckHandler]

/-- `query_rsp_handler`: the effects and `reg_offset` -/
def queryRspHandler (buf : Contents) (regOffset : UInt8) : Audited Access (List Effect × UInt8) := do
  let failed ← get .packet buf 3
  if failed ≠ 0 then pure ([], regOffset)
  else
    let cmd ← get .packet buf 2
    if cmd = 0x25 then
      if regOffset = 0x05 then
        let low ← get .packet buf 4
        let high ← get .packet buf 5
        pure ([.voltage (low.toUInt16 ||| high.toUInt16 <<< 8)], 0xFF)
      else pure ([], 0xFF)
    else pure ([], regOffset)

/-- `raw_hid_send` of a whole array -/
def rawHidSend (buf : Contents) : Audited Access Effect := do
  let bytes ← loop (fun i bytes => do pure (bytes ++ [← get .dfu buf i])) rawEpsize []
  pure (.rawHidSend bytes)

/-- `ckbt51_dfu_tx` of the bytes of the packet from the second on. The index `i` is a
byte; the checksum is summed from `buf[i]` and then not used. -/
def dfuTx (u : Uart) (rsp : UInt8) (packet : Contents) (len sn : UInt8) : Audited Access (List Effect) := do
  let buf ← put .dfu (u.zeroed .dfu) 0 0x03
  let buf ← put .dfu buf 1 0xAA
  let buf ← put .dfu buf 2 0x57
  let buf ← put .dfu buf 3 len
  let buf ← put .dfu buf 4 (~~~len)
  let buf ← put .dfu buf 5 sn
  let buf ← put .dfu buf 6 rsp
  let buf ← memcpy .dfu buf 7 .packet packet 1 len.toNat
  let i : UInt8 := 7 + len
  let _checksum ← loop (fun _ sum => do pure (sum + (← get .dfu buf i.toNat).toUInt16)) i.toNat 0
  let first ← rawHidSend buf
  if 25 < len then
    let buf ← put .dfu (u.zeroed .dfu) 0 0x03
    let buf ← memcpy .dfu buf 1 .packet packet 26 (len.toNat - 25)
    let second ← rawHidSend buf
    pure [first, second]
  else pure [first]

/-- The event of a change of the connection -/
def connectionEvent (status : UInt8) : EventType :=
  if status = 0x20 then .connected
  else if status = 0x21 then .discoverable
  else if status = 0x22 then .reconnecting
  else if status = 0x23 then .disconnected
  else if status = 0x24 then .pincodeEntry
  else if status = 0x25 then .exitPincodeEntry
  else .none

/-- `if (event.evt_type) bluetooth_event_queue_enqueue(event)` -/
def enqueue (event : Event) : List Effect := if event.evtType = .none then [] else [.enqueue event]

/-- `ckbt51_event_handler` -/
def eventHandler (u : Uart) (s : Ckbt51) (evtType : UInt8) (buf : Contents) (len : UInt8) :
    Audited Access (List Effect × UInt8) :=
  if evtType = 0xA1 then do
    let effects ← ackHandler buf
    pure (effects, s.regOffset)
  else if evtType = 0xB0 then do
    let reason ← get .packet buf 1
    pure (enqueue ⟨.reset, reason⟩, s.regOffset)
  else if evtType = 0xB3 then do
    let status ← get .packet buf 1
    let hostIndex ← get .packet buf 3
    pure (.sendConnEvtAck :: enqueue ⟨connectionEvent status, hostIndex⟩, s.regOffset)
  else if evtType = 0xB4 then do
    let led ← get .packet buf 1
    pure (enqueue ⟨.hidIndicator, led⟩, s.regOffset)
  else if evtType = 0xA2 then queryRspHandler buf s.regOffset
  else if evtType = 0xA3 then do
    let effects ← dfuTx u 0xA3 buf len s.sn
    pure (effects, s.regOffset)
  else if evtType = 0xB5 then do
    let kind ← get .packet buf 1
    if kind = 0x01 then
      let low ← get .packet buf 2
      let high ← get .packet buf 3
      pure ([.voltage (low.toUInt16 ||| high.toUInt16 <<< 8)], s.regOffset)
    else pure ([], s.regOffset)
  else pure ([], s.regOffset)

/-- The second half of `ckbt51_task`; a read that times out gives -1. -/
def readPacket (s : Ckbt51) (u : Uart) : Audited Access (List Effect × Ckbt51) :=
  if s.waitForNewPkt = false ∧ s.len.toNat ≤ u.queuedThen then do
    let len := s.len.toNat
    let buf ← loop (fun i buf => put .packet buf i ((u.packet i).getD 0xFF)) len (u.zeroed .packet)
    let checksum ← loop (fun i sum => do pure (sum + (← get .packet buf i).toUInt16)) (len - 2) 0
    let low ← get .packet buf ((len : Int) - 2)
    if checksum &&& 0xFF ≠ low.toUInt16 then pure ([], { s with waitForNewPkt := true })
    else
      let high ← get .packet buf ((len : Int) - 1)
      if (checksum >>> 8) &&& 0xFF ≠ high.toUInt16 then pure ([], { s with waitForNewPkt := true })
      else
        let evtType ← get .packet buf 0
        let handled ← eventHandler u s evtType buf (s.len - 3)
        pure (handled.1, { s with waitForNewPkt := true, regOffset := handled.2 })
  else pure ([], s)

/-- `ckbt51_task` -/
def ckbt51Task (s : Ckbt51) (u : Uart) : Audited Access (List Effect × Ckbt51) := do
  let s ← readHeader s u
  readPacket s u

end Code

/-! ## When the accesses are inside -/

section Inside

variable {u : Uart} {s : Ckbt51}

theorem inside_packet {i : Int} (low : 0 ≤ i) (high : i < 32) : Access.Inside ⟨.packet, i⟩ := ⟨low, high⟩

theorem inside_dfu {i : Int} (low : 0 ≤ i) (high : i < 32) : Access.Inside ⟨.dfu, i⟩ := ⟨low, high⟩

@[simp] theorem safe_get (buffer : Buffer) (buf : Contents) (i : Int) :
    (get buffer buf i).Safe Access.Inside ↔ Access.Inside ⟨buffer, i⟩ := safe_note _ _

@[simp] theorem safe_put (buffer : Buffer) (buf : Contents) (i : Int) (value : UInt8) :
    (put buffer buf i value).Safe Access.Inside ↔ Access.Inside ⟨buffer, i⟩ := safe_note _ _

@[simp] theorem value_get (buffer : Buffer) (buf : Contents) (i : Int) : (get buffer buf i).value = buf i := rfl

theorem safe_memcpy (target : Buffer) (buf : Contents) (i : Int) (source : Buffer) (data : Contents) (k : Int) (n : Nat) :
    (memcpy target buf i source data k n).Safe Access.Inside ↔
      ∀ j < n, Access.Inside ⟨source, k + j⟩ ∧ Access.Inside ⟨target, i + j⟩ := by
  unfold memcpy
  simp only [safe_loop, safe_bind, safe_get, safe_put]

theorem readHeader_safe (s : Ckbt51) (u : Uart) : (readHeader s u).Safe Access.Inside := by
  unfold readHeader
  split_ifs with framed
  · simp only [safe_bind, safe_put, safe_get]
    refine ⟨by decide, by decide, by decide, by decide, by decide, ?_⟩
    split_ifs
    · simp only [safe_bind, safe_get, safe_pure, and_true]
      decide
    · exact safe_pure _
  · exact safe_pure _

theorem ackHandler_safe (buf : Contents) : (ackHandler buf).Safe Access.Inside := by
  unfold ackHandler
  simp only [safe_bind, safe_get]
  refine ⟨by decide, ?_⟩
  split_ifs
  · simp only [safe_bind, safe_get]
    refine ⟨by decide, ?_⟩
    split_ifs <;> exact safe_pure _
  · exact safe_pure _

theorem queryRspHandler_safe (buf : Contents) (regOffset : UInt8) :
    (queryRspHandler buf regOffset).Safe Access.Inside := by
  unfold queryRspHandler
  simp only [safe_bind, safe_get]
  refine ⟨by decide, ?_⟩
  by_cases failed : (get Buffer.packet buf 3).value ≠ 0
  · rw [if_pos failed]
    exact safe_pure _
  · rw [if_neg failed]
    simp only [safe_bind, safe_get]
    refine ⟨by decide, ?_⟩
    split_ifs
    · simp only [safe_bind, safe_get, safe_pure, and_true]
      decide
    · exact safe_pure _
    · exact safe_pure _

theorem rawHidSend_safe (buf : Contents) : (rawHidSend buf).Safe Access.Inside := by
  unfold rawHidSend
  simp only [safe_bind, safe_loop, safe_get, safe_pure, and_true]
  intro i hi
  exact inside_dfu (by omega) (by have : rawEpsize = 32 := rfl; omega)

/-- A packet of at most 29 bytes is forwarded safely if and only if it has at most 24:
the sum over `buf[i]` reads behind the bytes copied. -/
theorem dfuTx_safe {packet : Contents} {rsp len sn : UInt8} (small : len.toNat ≤ 29) :
    (dfuTx u rsp packet len sn).Safe Access.Inside ↔ len.toNat ≤ 24 := by
  have index : (7 + len).toNat = 7 + len.toNat := by
    rw [UInt8.toNat_add]
    show (7 + len.toNat) % 256 = _
    omega
  unfold dfuTx
  simp only [safe_bind, safe_put, safe_memcpy, safe_loop, safe_get, safe_pure, and_true, index]
  constructor
  · rintro ⟨-, -, -, -, -, -, -, -, sum, -⟩
    have := (sum 0 (by omega)).2
    simp only [Buffer.size, rawEpsize] at this
    omega
  · intro short
    refine ⟨by decide, by decide, by decide, by decide, by decide, by decide, by decide, ?_, ?_, rawHidSend_safe _, ?_⟩
    · exact fun j hj => ⟨inside_packet (by omega) (by omega), inside_dfu (by omega) (by omega)⟩
    · exact fun _ _ => inside_dfu (by omega) (by omega)
    · rw [if_neg]
      · simp
      · intro long
        have : 25 < len.toNat := long
        omega

/-- Only the forwarding of a packet depends on its length. -/
theorem eventHandler_safe {evtType len : UInt8} {buf : Contents} :
    (eventHandler u s evtType buf len).Safe Access.Inside ↔
      (evtType = 0xA3 → (dfuTx u 0xA3 buf len s.sn).Safe Access.Inside) := by
  by_cases ota : evtType = 0xA3
  · subst ota
    unfold eventHandler
    rw [if_neg (by decide), if_neg (by decide), if_neg (by decide), if_neg (by decide), if_neg (by decide), if_pos rfl]
    simp
  · simp only [ota, false_implies, iff_true]
    unfold eventHandler
    split_ifs
    · simp only [safe_bind, safe_pure, and_true]
      exact ackHandler_safe buf
    · simp only [safe_bind, safe_get, safe_pure, and_true]
      decide
    · simp only [safe_bind, safe_get, safe_pure, and_true]
      decide
    · simp only [safe_bind, safe_get, safe_pure, and_true]
      decide
    · exact queryRspHandler_safe buf s.regOffset
    · simp only [safe_bind, safe_get]
      refine ⟨by decide, ?_⟩
      split_ifs
      · simp only [safe_bind, safe_get, safe_pure, and_true]
        decide
      · exact safe_pure _
    · exact safe_pure _

/-! ## The condition -/

/-- The length of the packet that a call reads, if it reads one. -/
def incoming (s : Ckbt51) (u : Uart) : Option UInt8 :=
  let length :=
    if s.waitForNewPkt = false then some s.len
    else if 5 ≤ u.queued ∧ u.header 0 = 0xAA ∧ u.header 1 = 0x57 ∧ ~~~(u.header 2) = u.header 3 then
      some (u.header 2)
    else none
  length.filter fun len => len.toNat ≤ u.queuedThen

/-- Byte `i` of the packet -/
def Uart.byte (u : Uart) (i : Nat) : UInt8 := (u.packet i).getD 0xFF

/-- The sum of the first bytes of the packet -/
def Uart.sum (u : Uart) : Nat → UInt16
  | 0 => 0
  | n + 1 => u.sum n + (u.byte n).toUInt16

/-- The packet ends in the sum of the bytes before. -/
def Uart.Summed (u : Uart) (len : Nat) : Prop :=
  u.sum (len - 2) &&& 0xFF = (u.byte (len - 2)).toUInt16 ∧
    (u.sum (len - 2) >>> 8) &&& 0xFF = (u.byte (len - 1)).toUInt16

instance (u : Uart) (len : Nat) : Decidable (u.Summed len) := inferInstanceAs (Decidable (_ ∧ _))

/-- A packet is 2 to 32 bytes long, and one that is forwarded at most 27. -/
def PacketOk (s : Ckbt51) (u : Uart) : Prop :=
  ∀ len ∈ incoming s u, 2 ≤ len.toNat ∧ len.toNat ≤ 32 ∧
    (u.byte 0 = 0xA3 → u.Summed len.toNat → len.toNat ≤ 27)

/-- The bytes of a packet that fits -/
theorem packet_bytes (n : Nat) (i : Int) :
    (loop (fun i buf => put .packet buf i ((u.packet i).getD 0xFF)) n (u.zeroed .packet)).value i =
      if 0 ≤ i ∧ i < n then u.byte i.toNat else u.zeroed .packet i := by
  induction n with
  | zero =>
    rw [value_loop_zero, if_neg (by omega)]
  | succ n ih =>
    rw [value_loop_succ]
    show Function.update (loop _ n (u.zeroed .packet)).value (n : Int) (u.byte n) i = _
    by_cases hi : i = n
    · rw [hi, Function.update_self, if_pos (by omega)]
      rfl
    · rw [Function.update_of_ne hi, ih]
      congr 1
      simp only [eq_iff_iff]
      omega

theorem packet_sum {buf : Contents} {n : Nat} (bytes : ∀ i < n, buf (i : Nat) = u.byte i) :
    (loop (fun i sum => do pure (sum + (← get .packet buf i).toUInt16)) n 0).value = u.sum n := by
  induction n with
  | zero => rfl
  | succ n ih =>
    rw [value_loop_succ, ih fun i hi => bytes i (by omega)]
    simp only [value_bind, value_get, value_pure, Uart.sum, bytes n (Nat.lt_succ_self n)]

/-- What the first half leaves for the second. -/
theorem incoming_eq (s : Ckbt51) (u : Uart) :
    incoming s u =
      let t := (readHeader s u).value
      if t.waitForNewPkt = false ∧ t.len.toNat ≤ u.queuedThen then some t.len else none := by
  unfold incoming readHeader
  cases waiting : s.waitForNewPkt with
  | false => simp [waiting, Option.filter]
  | true =>
    by_cases framed : 5 ≤ u.queued ∧ u.header 0 = 0xAA ∧ u.header 1 = 0x57
    · obtain ⟨queued, first, second⟩ := framed
      by_cases inverse : ~~~(u.header 2) = u.header 3
      · simp [put, note, queued, first, second, inverse, Option.filter, Function.update]
      · simp [put, note, queued, first, second, inverse, waiting, Option.filter, Function.update]
    · have unframed : ¬ (5 ≤ u.queued ∧ u.header 0 = 0xAA ∧ u.header 1 = 0x57 ∧ ~~~(u.header 2) = u.header 3) :=
        fun h => framed ⟨h.1, h.2.1, h.2.2.1⟩
      simp [unframed, framed, waiting, Option.filter]

/-- The packet in its array -/
theorem packet_byte {n i : Nat} (hi : i < n) :
    (loop (fun i buf => put .packet buf i ((u.packet i).getD 0xFF)) n (u.zeroed .packet)).value (i : Nat) =
      u.byte i := by
  rw [packet_bytes, if_pos (by omega), Int.toNat_natCast]

/-- A packet that is read -/
theorem readPacket_safe (ready : s.waitForNewPkt = false) (queued : s.len.toNat ≤ u.queuedThen) :
    (readPacket s u).Safe Access.Inside ↔ 2 ≤ s.len.toNat ∧ s.len.toNat ≤ 32 ∧
      (u.byte 0 = 0xA3 → u.Summed s.len.toNat → s.len.toNat ≤ 27) := by
  unfold readPacket
  rw [if_pos ⟨ready, queued⟩, safe_bind, safe_bind, safe_bind, safe_get]
  have filled : (loop (fun i buf => put .packet buf i ((u.packet i).getD 0xFF)) s.len.toNat (u.zeroed .packet)).Safe
      Access.Inside ↔ s.len.toNat ≤ 32 := by
    simp only [safe_loop, safe_put]
    constructor
    · intro all
      by_contra long
      have := (all 32 (by omega)).2
      simp only [Buffer.size] at this
      omega
    · exact fun fits i hi => inside_packet (by omega) (by omega)
  rw [filled]
  have bytes := fun i (hi : i < s.len.toNat) => packet_byte (u := u) hi
  generalize (loop (fun i buf => put .packet buf i ((u.packet i).getD 0xFF)) s.len.toNat (u.zeroed .packet)).value = buf
    at bytes ⊢
  by_cases two : 2 ≤ s.len.toNat
  swap
  · have before : ¬ Access.Inside ⟨.packet, (s.len.toNat : Int) - 2⟩ := fun h => by
      have : (0 : Int) ≤ (s.len.toNat : Int) - 2 := h.1
      omega
    simp [two, before]
  by_cases fits : s.len.toNat ≤ 32
  swap
  · simp [fits]
  have summed : (loop (fun i sum => do pure (sum + (← get .packet buf i).toUInt16)) (s.len.toNat - 2) 0).Safe
      Access.Inside := by
    simp only [safe_loop, safe_bind, safe_get, safe_pure, and_true]
    exact fun i hi => inside_packet (by omega) (by omega)
  have low : buf ((s.len.toNat : Int) - 2) = u.byte (s.len.toNat - 2) := by
    rw [← bytes _ (by omega)]
    congr 1
    omega
  have high : buf ((s.len.toNat : Int) - 1) = u.byte (s.len.toNat - 1) := by
    rw [← bytes _ (by omega)]
    congr 1
    omega
  have first : buf 0 = u.byte 0 := bytes 0 (by omega)
  rw [packet_sum fun i hi => bytes i (by omega)]
  simp only [two, fits, true_and, summed, value_get, low]
  have inside : Access.Inside ⟨.packet, (s.len.toNat : Int) - 2⟩ := inside_packet (by omega) (by omega)
  have inside' : Access.Inside ⟨.packet, (s.len.toNat : Int) - 1⟩ := inside_packet (by omega) (by omega)
  simp only [inside, true_and]
  unfold Uart.Summed
  by_cases lowSum : u.sum (s.len.toNat - 2) &&& 0xFF = (u.byte (s.len.toNat - 2)).toUInt16
  swap
  · rw [if_pos lowSum]
    exact ⟨fun _ _ h => absurd h.1 lowSum, fun _ => safe_pure _⟩
  rw [if_neg (not_not_intro lowSum), safe_bind, safe_get, value_get, high]
  simp only [inside', true_and]
  by_cases highSum : (u.sum (s.len.toNat - 2) >>> 8) &&& 0xFF = (u.byte (s.len.toNat - 1)).toUInt16
  swap
  · rw [if_pos highSum]
    exact ⟨fun _ _ h => absurd h.2 highSum, fun _ => safe_pure _⟩
  rw [if_neg (not_not_intro highSum)]
  simp only [safe_bind, safe_get, safe_pure, and_true, value_get, first, eventHandler_safe, lowSum, highSum, true_implies]
  have start : Access.Inside ⟨.packet, 0⟩ := by decide
  simp only [start, true_and]
  refine imp_congr_right fun ota => ?_
  have three : 3 ≤ s.len.toNat := by
    by_contra short
    have zero : s.len.toNat - 2 = 0 := by omega
    rw [zero, ota, Uart.sum] at lowSum
    exact absurd lowSum (by decide)
  have rest : (s.len - 3).toNat = s.len.toNat - 3 := UInt8.toNat_sub_of_le _ _ three
  rw [dfuTx_safe (by omega), rest]
  omega

/-- A call stays inside its arrays if and only if the packet it reads is as it should be. -/
theorem ckbt51Task_safe (s : Ckbt51) (u : Uart) : (ckbt51Task s u).Safe Access.Inside ↔ PacketOk s u := by
  unfold ckbt51Task PacketOk
  rw [safe_bind, incoming_eq]
  have header := readHeader_safe s u
  simp only [header, true_and]
  generalize (readHeader s u).value = t
  by_cases ready : t.waitForNewPkt = false ∧ t.len.toNat ≤ u.queuedThen
  · rw [if_pos ready, readPacket_safe ready.1 ready.2]
    simp
  · rw [if_neg ready]
    unfold readPacket
    rw [if_neg ready]
    simp

/-! ## Every run -/

/-- A call, or another query of a register. -/
inductive ReceiveEvent where
  | task (u : Uart)
  | readStateReg (reg : UInt8)

def receiveStep (s : Ckbt51) : ReceiveEvent → Ckbt51
  | .task u => (ckbt51Task s u).value.2
  | .readStateReg reg => { s with regOffset := reg }

/-- The accesses of a call -/
def InBounds (s : Ckbt51) : ReceiveEvent → Prop
  | .task u => (ckbt51Task s u).Safe Access.Inside
  | .readStateReg _ => True

def ReceiveOk (s : Ckbt51) : ReceiveEvent → Prop
  | .task u => PacketOk s u
  | .readStateReg _ => True

/-- Every access of a run is inside its array if and only if every packet that the run
reads is as it should be. -/
theorem ckbt51_in_bounds_iff (events : List ReceiveEvent) :
    Along receiveStep InBounds Ckbt51.init events ↔ Along receiveStep ReceiveOk Ckbt51.init events := by
  have same : ∀ s e, InBounds s e ↔ ReceiveOk s e := by
    intro s e
    cases e with
    | task u => exact ckbt51Task_safe s u
    | readStateReg => exact Iff.rfl
  constructor
  · exact Along.mono fun s e => (same s e).1
  · exact Along.mono fun s e => (same s e).2

/-- A header for `len` bytes, and then zeros. -/
def stray (len : UInt8) : Uart :=
  ⟨5, fun i => [0xAA, 0x57, len, ~~~len, 0].getD i 0, 64, fun _ => some 0, fun _ => 0⟩

/-- `buf[len - 2]` is read before the array, and `buf[32]` is written behind it. -/
theorem ckbt51_out_of_bounds :
    ¬ Along receiveStep InBounds Ckbt51.init [.task (stray 1)] ∧
      ¬ Along receiveStep InBounds Ckbt51.init [.task (stray 33)] := by
  constructor
  · intro h
    have := (ckbt51Task_safe _ _).1 h.1
    exact absurd (this 1 (by decide)).1 (by decide)
  · intro h
    have := (ckbt51Task_safe _ _).1 h.1
    exact absurd (this 33 (by decide)).2.1 (by decide)

end Inside

end QmkFirmware.Bluetooth
