import QmkFirmware.Bluetooth.Framing

/-!
# Updates of the module

The host sends the frames of an update over raw HID, `ckbt51_dfu_rx` checks them and
forwards their payload, and `ckbt51_dfu_tx` relays what the module answers.
-/

namespace QmkFirmware.Bluetooth.Dfu
open Framer (sum low_byte)
open Lib Audited

/-! ## What the host sends -/

/-- `PACKECT_HEADER_LEN` -/
def packectHeaderLen : Nat := 5

/-- What `ckbt51_send_cmd` writes: a header, the length with that of the sum, its complement, a number, the payload and its sum -/
def packet (ackEnable : Bool) (sn : UInt8) (payload : List UInt8) : List UInt8 :=
  let len := UInt8.ofNat (payload.length + 2)
  [0xAA, if ackEnable then 0x56 else 0x55, len, ~~~len, sn] ++ payload ++ [(sum payload).toUInt8, (sum payload >>> 8).toUInt8]

/-- The arguments of a call of `ckbt51_send_cmd` -/
structure SendCmd where
  payload : List UInt8
  ackEnable : Bool
  retry : Bool
  deriving DecidableEq

/-- The bytes behind the header -/
def payload (data : Nat → UInt8) (len : Nat) : List UInt8 := (List.range len).map fun i => data (packectHeaderLen + i)

/-- `ckbt51_dfu_rx`: the number it stores, and its call of `ckbt51_send_cmd` -/
def dfuRx (sn : UInt8) (data : Nat → UInt8) : UInt8 × Option SendCmd :=
  if data 0 = 0xAA ∧ (data 1 = 0x55 ∨ data 1 = 0x56) ∧ data 2 = ~~~data 3 then
    let payloadLen := (data 2).toNat
    if rawEpsize - packectHeaderLen < payloadLen then (sn, none)
    else
      -- no turn of the loop for a length of 0 or 1, with which the sum is looked for before the payload
      let checksum := sum (payload data (payloadLen - 2))
      if checksum &&& 0xFF ≠ (data (packectHeaderLen + payloadLen - 2)).toUInt16 ∨
          checksum >>> 8 ≠ (data (packectHeaderLen + payloadLen - 1)).toUInt16 then (sn, none)
      else
        (data 4, if data 5 &&& 0xF0 = 0x60 then some ⟨payload data (data 2 - 2).toNat, data 1 == 0x56, sn == data 4⟩ else none)
  else (sn, none)

/-! ### One buffer -/

/-- Header, complement, length and sum are right. -/
structure Valid (data : Nat → UInt8) : Prop where
  header : data 0 = 0xAA ∧ (data 1 = 0x55 ∨ data 1 = 0x56)
  complement : data 2 = ~~~data 3
  length : 2 ≤ (data 2).toNat ∧ (data 2).toNat ≤ 27
  low : (data ((data 2).toNat + 3)) = (sum (payload data ((data 2).toNat - 2))).toUInt8
  high : (data ((data 2).toNat + 4)) = (sum (payload data ((data 2).toNat - 2)) >>> 8).toUInt8

instance (data : Nat → UInt8) : Decidable (Valid data) :=
  decidable_of_iff ((data 0 = 0xAA ∧ (data 1 = 0x55 ∨ data 1 = 0x56)) ∧ data 2 = ~~~data 3 ∧
      (2 ≤ (data 2).toNat ∧ (data 2).toNat ≤ 27) ∧
      data ((data 2).toNat + 3) = (sum (payload data ((data 2).toNat - 2))).toUInt8 ∧
      data ((data 2).toNat + 4) = (sum (payload data ((data 2).toNat - 2)) >>> 8).toUInt8)
    ⟨fun ⟨header, complement, length, low, high⟩ => ⟨header, complement, length, low, high⟩,
      fun h => ⟨h.header, h.complement, h.length, h.low, h.high⟩⟩

/-- A buffer whose length is 1, and whose number and next byte are 0 -/
structure Stray (data : Nat → UInt8) : Prop where
  header : data 0 = 0xAA ∧ (data 1 = 0x55 ∨ data 1 = 0x56)
  complement : data 2 = ~~~data 3
  length : data 2 = 1
  number : data 4 = 0
  next : data 5 = 0

section Buffer

variable {sn : UInt8} {data : Nat → UInt8}

theorem low_iff (x : UInt16) (b : UInt8) : x &&& 0xFF = b.toUInt16 ↔ b = x.toUInt8 := by
  rw [low_byte]
  exact ⟨fun same => (UInt8.toUInt16_inj.1 same).symm, fun same => same ▸ rfl⟩

theorem high_iff (x : UInt16) (b : UInt8) : x >>> 8 = b.toUInt16 ↔ b = (x >>> 8).toUInt8 := by
  have small : (x >>> 8).toNat < 256 := by
    rw [UInt16.toNat_shiftRight]
    have := x.toNat_lt
    simp [Nat.shiftRight_eq_div_pow]
    omega
  have back : ((x >>> 8).toUInt8).toUInt16 = x >>> 8 := by
    apply UInt16.toNat_inj.1
    rw [UInt8.toNat_toUInt16, UInt16.toNat_toUInt8]
    exact Nat.mod_eq_of_lt small
  constructor
  · intro same
    rw [same]
    simp
  · intro same
    rw [same, back]

theorem dfuRx_valid (valid : Valid data) : dfuRx sn data = (data 4,
    if data 5 &&& 0xF0 = 0x60 then some ⟨payload data ((data 2).toNat - 2), data 1 == 0x56, sn == data 4⟩ else none) := by
  obtain ⟨least, most⟩ := valid.length
  have len : (data 2 - 2).toNat = (data 2).toNat - 2 := by
    rw [UInt8.toNat_sub_of_le]
    · rfl
    · exact least
  have low : packectHeaderLen + (data 2).toNat - 2 = (data 2).toNat + 3 := by
    unfold packectHeaderLen
    omega
  have high : packectHeaderLen + (data 2).toNat - 1 = (data 2).toNat + 4 := by
    unfold packectHeaderLen
    omega
  unfold dfuRx
  rw [if_pos ⟨valid.header.1, valid.header.2, valid.complement⟩]
  dsimp only
  rw [if_neg (by unfold rawEpsize packectHeaderLen; omega), low, high, len,
    if_neg (not_or.2 ⟨not_not.2 ((low_iff _ _).2 valid.low), not_not.2 ((high_iff _ _).2 valid.high)⟩)]

theorem dfuRx_stray (stray : Stray data) : dfuRx sn data = (0, none) := by
  have len : (data 2).toNat = 1 := by
    rw [stray.length]
    rfl
  unfold dfuRx
  rw [if_pos ⟨stray.header.1, stray.header.2, stray.complement⟩]
  dsimp only
  rw [len]
  simp [packectHeaderLen, rawEpsize, stray.number, stray.next, payload, sum]

theorem dfuRx_invalid (invalid : ¬ Valid data) (tame : ¬ Stray data) : dfuRx sn data = (sn, none) := by
  unfold dfuRx
  split
  case isFalse => rfl
  case isTrue framed =>
    obtain ⟨first, second, complement⟩ := framed
    dsimp only
    split
    case isTrue => rfl
    case isFalse short =>
      have most : (data 2).toNat ≤ 27 := by
        unfold rawEpsize packectHeaderLen at short
        omega
      split
      case isTrue => rfl
      case isFalse summed =>
        obtain ⟨low, high⟩ := not_or.1 summed
        rw [not_not, low_iff] at low
        rw [not_not, high_iff] at high
        exfalso
        obtain zero | one | least : (data 2).toNat = 0 ∨ (data 2).toNat = 1 ∨ 2 ≤ (data 2).toNat := by omega
        · -- the sum of no bytes is compared with the complement of the length
          rw [zero] at low
          have length : data 2 = 0 := UInt8.toNat_inj.1 zero
          have none : data 3 = 0 := low
          rw [length, none] at complement
          exact absurd complement (by decide)
        · rw [one] at low high
          have none : (sum (payload data (1 - 2)) >>> 8).toUInt8 = 0 := by simp [payload, sum]
          exact tame ⟨⟨first, second⟩, complement, UInt8.toNat_inj.1 one, low, high.trans none⟩
        · refine invalid ⟨⟨first, second⟩, complement, ⟨least, most⟩, ?_, ?_⟩
          · rw [← low]
            congr 1
            unfold packectHeaderLen
            omega
          · rw [← high]
            congr 1
            unfold packectHeaderLen
            omega

/-- A buffer begins with bytes. -/
def Begins (data : Nat → UInt8) (bytes : List UInt8) : Prop := ∀ i < bytes.length, bytes[i]? = some (data i)

theorem length_packet (ackEnable : Bool) (bytes : List UInt8) : (packet ackEnable sn bytes).length = bytes.length + 7 := by
  simp [packet]

theorem packet_getElem? (ackEnable : Bool) (bytes : List UInt8) (i : Nat) :
    (packet ackEnable sn bytes)[packectHeaderLen + i]? =
      (bytes ++ [(sum bytes).toUInt8, (sum bytes >>> 8).toUInt8])[i]? := by
  unfold packet packectHeaderLen
  rw [List.append_assoc, List.getElem?_append_right (by simp)]
  simp

section Packet

variable {ackEnable : Bool} {bytes : List UInt8} (begins : Begins data (packet ackEnable sn bytes))

include begins

theorem packet_header : data 0 = 0xAA ∧ data 1 = (if ackEnable then 0x56 else 0x55) ∧
    data 2 = UInt8.ofNat (bytes.length + 2) ∧ data 3 = ~~~UInt8.ofNat (bytes.length + 2) ∧ data 4 = sn := by
  have byte {i : Nat} (lt : i < 5) : (packet ackEnable sn bytes)[i]? = some (data i) := begins i (by rw [length_packet]; omega)
  have first := byte (i := 0) (by decide)
  have second := byte (i := 1) (by decide)
  have third := byte (i := 2) (by decide)
  have fourth := byte (i := 3) (by decide)
  have fifth := byte (i := 4) (by decide)
  simp only [packet, List.cons_append, List.getElem?_cons_zero, List.getElem?_cons_succ,
    Option.some.injEq] at first second third fourth fifth
  exact ⟨first.symm, second.symm, third.symm, fourth.symm, fifth.symm⟩

theorem packet_byte {i : Nat} (lt : i < bytes.length) : bytes[i]? = some (data (packectHeaderLen + i)) := by
  rw [← begins (packectHeaderLen + i) (by rw [length_packet, packectHeaderLen]; omega), packet_getElem?,
    List.getElem?_append_left lt]

theorem packet_sum : data (bytes.length + 5) = (sum bytes).toUInt8 ∧ data (bytes.length + 6) = (sum bytes >>> 8).toUInt8 := by
  have byte {i : Nat} (lt : i < bytes.length + 2) :
      (bytes ++ [(sum bytes).toUInt8, (sum bytes >>> 8).toUInt8])[i]? = some (data (packectHeaderLen + i)) := by
    rw [← @packet_getElem? sn ackEnable]
    exact begins _ (by rw [length_packet, packectHeaderLen]; omega)
  have low := byte (i := bytes.length) (by omega)
  have high := byte (i := bytes.length + 1) (by omega)
  rw [List.getElem?_append_right (by omega)] at low high
  rw [Nat.sub_self, List.getElem?_cons_zero, Option.some_inj] at low
  rw [Nat.add_sub_cancel_left, List.getElem?_cons_succ, List.getElem?_cons_zero, Option.some_inj] at high
  rw [Nat.add_comm] at low
  rw [packectHeaderLen, Nat.add_left_comm] at high
  exact ⟨low.symm, high.symm⟩

theorem packet_payload : payload data bytes.length = bytes := by
  refine List.ext_getElem? fun i => ?_
  unfold payload
  rw [List.getElem?_map]
  by_cases lt : i < bytes.length
  · rw [packet_byte begins lt, List.getElem?_range lt]
    rfl
  · rw [List.getElem?_eq_none (Nat.le_of_not_lt lt), List.getElem?_eq_none (by rw [List.length_range]; omega)]
    rfl

/-- What the host sends has nothing wrong. -/
theorem packet_valid (le : bytes.length ≤ 25) : Valid data := by
  obtain ⟨first, second, length, complement, -⟩ := packet_header begins
  obtain ⟨low, high⟩ := packet_sum begins
  have len : (data 2).toNat = bytes.length + 2 := by
    rw [length, UInt8.toNat_ofNat']
    omega
  refine ⟨⟨first, ?_⟩, ?_, ⟨by omega, by omega⟩, ?_, ?_⟩
  · rw [second]
    cases ackEnable
    · exact Or.inl rfl
    · exact Or.inr rfl
  · rw [complement, length, UInt8.not_not]
  · rw [len, Nat.add_sub_cancel, packet_payload begins]
    exact low
  · rw [len, Nat.add_sub_cancel, packet_payload begins]
    exact high

end Packet

/-- What has nothing wrong is what the host sends. -/
theorem begins_packet (valid : Valid data) :
    Begins data (packet (data 1 == 0x56) (data 4) (payload data ((data 2).toNat - 2))) := by
  obtain ⟨least, -⟩ := valid.length
  have len : UInt8.ofNat ((payload data ((data 2).toNat - 2)).length + 2) = data 2 := by
    rw [payload, List.length_map, List.length_range, Nat.sub_add_cancel least, UInt8.ofNat_toNat]
  have complement : ~~~data 2 = data 3 := by
    rw [valid.complement, UInt8.not_not]
  have ack : data 1 = if (data 1 == 0x56) = true then 0x56 else 0x55 := by
    rcases valid.header.2 with no | yes
    · rw [no]
      rfl
    · rw [yes]
      rfl
  have length : (payload data ((data 2).toNat - 2)).length = (data 2).toNat - 2 := by
    rw [payload, List.length_map, List.length_range]
  intro i lt
  rw [length_packet, length] at lt
  by_cases head : i < 5
  · simp only [packet, len, complement, ← ack, List.cons_append]
    interval_cases i
    · exact congrArg some valid.header.1.symm
    · rfl
    · rfl
    · rfl
    · rfl
  · obtain ⟨i, rfl⟩ := Nat.exists_eq_add_of_le (Nat.le_of_not_lt head)
    rw [show 5 = packectHeaderLen from rfl, packet_getElem?]
    by_cases middle : i < (data 2).toNat - 2
    · rw [List.getElem?_append_left (by omega), payload, List.getElem?_map, List.getElem?_range middle]
      rfl
    · rw [List.getElem?_append_right (by omega), length, ← valid.low, ← valid.high]
      obtain rfl | rfl : i = (data 2).toNat - 2 ∨ i = (data 2).toNat - 1 := by omega
      · rw [Nat.sub_self, List.getElem?_cons_zero, packectHeaderLen, show 5 + ((data 2).toNat - 2) = (data 2).toNat + 3 by omega]
      · rw [show (data 2).toNat - 1 - ((data 2).toNat - 2) = 1 by omega, List.getElem?_cons_succ, List.getElem?_cons_zero,
          packectHeaderLen, show 5 + ((data 2).toNat - 1) = (data 2).toNat + 4 by omega]

/-- The first bytes of a payload that is forwarded -/
theorem forwarded_iff (first : UInt8) : first &&& 0xF0 = 0x60 ↔ 0x60 ≤ first ∧ first ≤ 0x6F := by
  have all : ∀ n : Fin 256, UInt8.ofNat n &&& 0xF0 = 0x60 ↔ 0x60 ≤ UInt8.ofNat n ∧ UInt8.ofNat n ≤ 0x6F := by decide +kernel
  have here := all ⟨first.toNat, first.toNat_lt⟩
  rwa [UInt8.ofNat_toNat] at here

end Buffer

/-! ### Runs -/

/-- The number that is stored, and beside it that of the last buffer with nothing wrong -/
structure Updater where
  sn : UInt8
  last : Option UInt8

namespace Updater

def initial : Updater := ⟨0, none⟩

/-- One report of the host -/
def step (x : Updater) (data : Nat → UInt8) : Updater :=
  ⟨(dfuRx x.sn data).1, if Valid data then some (data 4) else x.last⟩

/-- A frame is forwarded with its payload, as a retry if the last one had its number; and a buffer with something wrong is not
forwarded and changes no number. -/
def Right (x : Updater) (data : Nat → UInt8) : Prop :=
  (∀ ackEnable sn first rest, rest.length < 25 → 0x60 ≤ first → first ≤ 0x6F → Begins data (packet ackEnable sn (first :: rest)) →
    (dfuRx x.sn data).2 = some ⟨first :: rest, ackEnable, decide (x.last = some sn)⟩) ∧
    (¬ Valid data → dfuRx x.sn data = (x.sn, none))

/-- The number 0 does not come first, neither in a frame that is forwarded nor in a buffer of length 1 after another number. -/
def Numbered (x : Updater) (data : Nat → UInt8) : Prop :=
  (x.last = none → Valid data → data 5 &&& 0xF0 = 0x60 → data 4 ≠ 0) ∧ (Stray data → x.sn = 0)

/-- The number that is stored is that of the last buffer with nothing wrong, or 0 before there is one. -/
def Inv (x : Updater) : Prop := x.sn = x.last.getD 0

variable {x : Updater} {data : Nat → UInt8}

theorem retry_iff (h : Inv x) {sn : UInt8} (numbered : x.last = none → sn ≠ 0) : (x.sn == sn) = decide (x.last = some sn) := by
  rw [h]
  cases last : x.last with
  | none =>
    have ne : sn ≠ 0 := numbered last
    rw [Option.getD_none, beq_eq_false_iff_ne.2 ne.symm]
    exact (decide_eq_false nofun).symm
  | some number =>
    rw [Option.getD_some, beq_eq_decide]
    exact decide_eq_decide.2 Option.some_inj.symm

theorem right_of_numbered (h : Inv x) (numbered : Numbered x data) : Right x data := by
  constructor
  · intro ackEnable sn first rest short low high begins
    have valid : Valid data := packet_valid begins (by rw [List.length_cons]; omega)
    obtain ⟨-, second, length, -, number⟩ := packet_header begins
    have head : data 5 = first := by
      have byte := packet_byte begins (i := 0) (by simp)
      rw [List.getElem?_cons_zero, Option.some_inj] at byte
      exact byte.symm
    have len : (data 2).toNat - 2 = (first :: rest).length := by
      rw [length, UInt8.toNat_ofNat', List.length_cons]
      omega
    have forwarded : data 5 &&& 0xF0 = 0x60 := by
      rw [head]
      exact (forwarded_iff first).2 ⟨low, high⟩
    have ack : (data 1 == 0x56) = ackEnable := by
      rw [second]
      cases ackEnable <;> rfl
    rw [dfuRx_valid valid, if_pos forwarded, len, packet_payload begins, ack, number,
      retry_iff h fun none => number ▸ numbered.1 none valid forwarded]
  · intro invalid
    by_cases stray : Stray data
    · rw [dfuRx_stray stray, numbered.2 stray]
    · exact dfuRx_invalid invalid stray

theorem numbered_of_right (h : Inv x) (right : Right x data) : Numbered x data := by
  constructor
  · intro none valid forwarded zero
    have begins := begins_packet valid
    obtain ⟨low, high⟩ := (forwarded_iff _).1 forwarded
    obtain ⟨least, most⟩ := valid.length
    have longer : 2 < (data 2).toNat := by
      by_contra short
      have len : (data 2).toNat = 2 := by omega
      have head := valid.low
      rw [len] at head
      have nothing : data 5 = 0 := head
      rw [nothing] at low
      exact absurd low (by decide)
    obtain ⟨len, hlen⟩ := Nat.exists_eq_add_of_lt longer
    have split : payload data ((data 2).toNat - 2) = data 5 :: (List.range len).map fun i => data (packectHeaderLen + (i + 1)) := by
      rw [hlen, show 2 + len + 1 - 2 = len + 1 by omega, payload, List.range_succ_eq_map, List.map_cons, List.map_map]
      rfl
    rw [split] at begins
    have sent := right.1 _ _ _ _ (by rw [List.length_map, List.length_range]; omega) low high begins
    rw [dfuRx_valid valid, if_pos forwarded, Option.some_inj, none] at sent
    have retry := congrArg SendCmd.retry sent
    dsimp only at retry
    rw [h, none, Option.getD_none, zero] at retry
    exact absurd retry (by decide)
  · intro stray
    have invalid : ¬ Valid data := fun valid => by
      have least := valid.length.1
      rw [stray.length] at least
      exact absurd least (by decide)
    have same := right.2 invalid
    rw [dfuRx_stray stray] at same
    exact (Prod.mk.inj same).1.symm

theorem Inv.step (h : Inv x) (right : Right x data) : Inv (x.step data) := by
  unfold Inv Updater.step
  dsimp only
  split
  case isTrue valid => rw [dfuRx_valid valid, Option.getD_some]
  case isFalse invalid =>
    rw [right.2 invalid]
    exact h

/-- **Updates of the module**: in a run of reports of the host every frame is forwarded with its payload, as a retry if and only
if the last one had its number, and nothing else changes anything, if and only if the number 0 never comes first. -/
theorem frames_forwarded (reports : List (Nat → UInt8)) :
    Along step Right initial reports ↔ Along step Numbered initial reports :=
  Along.congr Inv (fun _ _ h => ⟨numbered_of_right h, right_of_numbered h⟩) (fun _ _ h right => h.step right) rfl

/-- After a frame of number 5, a buffer of length 1 whose number is 0: the number that is stored becomes 0. -/
theorem stray_accepted :
    ¬ Along step Right initial
      [fun i => [0xAA, 0x55, 3, 0xFC, 5, 0x60, 0x60, 0].getD i 0, fun i => [0xAA, 0x55, 1, 0xFE].getD i 0] := by
  rintro ⟨-, second, -⟩
  have same := second.2 (by decide)
  exact absurd same (by decide)

end Updater

/-! ## What the module answers -/

/-- The bytes of a report but the first one -/
def Effect.relayed : Effect → List UInt8
  | .rawHidSend buf => buf.tail
  | _ => []

/-- An answer as the host waits for it, but for the sum -/
def answer (packet : Contents) (len sn : UInt8) : List UInt8 :=
  [0xAA, 0x57, len, ~~~len, sn, 0xA3] ++ (List.range len.toNat).map fun i : Nat => packet (1 + i)

/-- What the host gets of an answer -/
def received (u : Uart) (packet : Contents) (len sn : UInt8) : List UInt8 :=
  (dfuTx u 0xA3 packet len sn).value.flatMap Effect.relayed

/-- The host gets the answer and then its sum, be it of the whole answer or of what is behind some of the header, and
what is written stays inside the report. -/
structure Relayed (u : Uart) (packet : Contents) (len sn : UInt8) : Prop where
  summed : ∃ k ≤ packectHeaderLen,
    answer packet len sn ++ [(sum ((answer packet len sn).drop k)).toUInt8, (sum ((answer packet len sn).drop k) >>> 8).toUInt8] <+:
      received u packet len sn
  inside : (memcpy .dfu (u.zeroed .dfu) 7 .packet packet 1 len.toNat).Safe Access.Inside

section Answer

variable {u : Uart} {packet : Contents} {len sn : UInt8}

theorem value_memcpy (target : Buffer) (buf : Contents) (i : Int) (source : Buffer) (data : Contents) (k : Int) (n : Nat) (x : Int) :
    (memcpy target buf i source data k n).value x = if i ≤ x ∧ x < i + n then data (k + (x - i)) else buf x := by
  unfold memcpy
  induction n with
  | zero =>
    rw [value_loop_zero, if_neg (by omega)]
  | succ n ih =>
    rw [value_loop_succ]
    show Function.update (loop _ n buf).value (i + n) (data (k + n)) x = _
    by_cases here : x = i + n
    · rw [here, Function.update_self, if_pos (by omega), show i + (n : Int) - i = n by omega]
    · rw [Function.update_of_ne here, ih]
      congr 1
      simp only [eq_iff_iff]
      omega

theorem value_rawHidSend (buf : Contents) : (rawHidSend buf).value = .rawHidSend ((List.range rawEpsize).map fun i : Nat => buf i) := by
  have gathered (n : Nat) : (loop (fun i bytes => do pure (bytes ++ [← get .dfu buf i])) n ([] : List UInt8)).value =
      (List.range n).map fun i : Nat => buf i := by
    induction n with
    | zero => rfl
    | succ n ih =>
      rw [value_loop_succ, ih, List.range_succ, List.map_append]
      rfl
  exact congrArg Effect.rawHidSend (gathered rawEpsize)

/-- A report that carries the bytes of a list from one on -/
theorem relayed_eq {buf : Contents} {bytes : List UInt8} {k : Nat}
    (carried : ∀ i < 31, buf ((i + 1 : Nat) : Int) = bytes.getD (k + i) 0) :
    Effect.relayed (rawHidSend buf).value = (List.range 31).map fun i => bytes.getD (k + i) 0 := by
  rw [value_rawHidSend, Effect.relayed, show rawEpsize = 31 + 1 from rfl, List.range_succ_eq_map, List.map_cons, List.tail_cons,
    List.map_map]
  refine List.map_congr_left fun i hi => ?_
  exact carried i (List.mem_range.1 hi)

theorem length_answer : (answer packet len sn).length = len.toNat + 6 := by
  simp [answer]

theorem answer_getD {i : Nat} : (answer packet len sn).getD (6 + i) 0 = if i < len.toNat then packet (1 + (i : Nat)) else 0 := by
  unfold answer
  rw [List.getD_eq_getElem?_getD, List.getElem?_append_right (by simp), List.getElem?_map]
  by_cases lt : i < len.toNat
  · simp [lt]
  · simp [lt]

theorem value_put (buffer : Buffer) (buf : Contents) (i : Int) (value : UInt8) :
    (put buffer buf i value).value = Function.update buf i value := rfl

theorem zeroed_dfu {i : Int} (low : 0 ≤ i) (high : i < 32) : u.zeroed .dfu i = 0 := if_pos ⟨low, high⟩

/-- The first report -/
def firstReport (u : Uart) (packet : Contents) (len sn : UInt8) : Contents :=
  let header := Function.update (Function.update (Function.update (Function.update (u.zeroed .dfu) 0 0x03) 1 0xAA) 2 0x57) 3 len
  let buf := Function.update (Function.update (Function.update header 4 (~~~len)) 5 sn) 6 0xA3
  (memcpy .dfu buf 7 .packet packet 1 len.toNat).value

/-- The second report, if there is one -/
def secondReport (u : Uart) (packet : Contents) (len : UInt8) : Contents :=
  (memcpy .dfu (Function.update (u.zeroed .dfu) 0 0x03) 1 .packet packet 26 (len.toNat - 25)).value

theorem received_reports : received u packet len sn =
    Effect.relayed (rawHidSend (firstReport u packet len sn)).value ++
      if 25 < len then Effect.relayed (rawHidSend (secondReport u packet len)).value else [] := by
  unfold received dfuTx
  simp only [value_bind, value_put]
  by_cases long : 25 < len
  · simp only [if_pos long, value_bind, value_put, value_pure, List.flatMap_cons, List.flatMap_nil, List.append_nil]
    rfl
  · simp only [if_neg long, value_pure, List.flatMap_cons, List.flatMap_nil]
    rfl

theorem firstReport_eq {i : Nat} (lt : i < 31) : firstReport u packet len sn ((i + 1 : Nat) : Int) = (answer packet len sn).getD (0 + i) 0 := by
  unfold firstReport
  rw [value_memcpy, Nat.zero_add]
  by_cases head : i < 6
  · rw [if_neg (by omega)]
    unfold answer
    interval_cases i <;> rfl
  · obtain ⟨i, rfl⟩ := Nat.exists_eq_add_of_le (Nat.le_of_not_lt head)
    rw [answer_getD]
    by_cases copied : i < len.toNat
    · rw [if_pos copied, if_pos (by omega)]
      congr 1
      omega
    · rw [if_neg copied, if_neg (by omega)]
      repeat rw [Function.update_of_ne (by omega)]
      exact zeroed_dfu (by omega) (by omega)

theorem secondReport_eq {i : Nat} (lt : i < 31) : secondReport u packet len ((i + 1 : Nat) : Int) = (answer packet len sn).getD (31 + i) 0 := by
  unfold secondReport
  rw [value_memcpy, show 31 + i = 6 + (25 + i) by omega, answer_getD]
  by_cases copied : 25 + i < len.toNat
  · rw [if_pos copied, if_pos (by omega)]
    congr 1
    omega
  · rw [if_neg copied, if_neg (by omega), Function.update_of_ne (by omega)]
    exact zeroed_dfu (by omega) (by omega)

/-- One report, or two, carry the answer and then zeros. -/
theorem received_eq :
    received u packet len sn = (List.range (if 25 < len then 31 + 31 else 31)).map fun i => (answer packet len sn).getD i 0 := by
  rw [received_reports, relayed_eq fun i lt => firstReport_eq lt]
  by_cases long : 25 < len
  · rw [if_pos long, if_pos long, relayed_eq fun i lt => @secondReport_eq u packet len sn i lt, List.range_add, List.map_append, List.map_map]
    simp only [Nat.zero_add]
    rfl
  · rw [if_neg long, if_neg long, List.append_nil]
    simp only [Nat.zero_add]

theorem toNat_sum (bytes : List UInt8) : (sum bytes).toNat = (bytes.map UInt8.toNat).sum % 65536 := by
  induction bytes using List.reverseRecOn with
  | nil => rfl
  | append_singleton bytes b ih =>
    rw [sum_snoc, UInt16.toNat_add, ih, List.map_append, List.sum_append, UInt8.toNat_toUInt16]
    simp

theorem eq_zero_of_bytes {x : UInt16} (low : x.toUInt8 = 0) (high : (x >>> 8).toUInt8 = 0) : x = 0 := by
  have below := congrArg UInt16.toNat ((high_iff x 0).2 high.symm)
  have rest := congrArg UInt8.toNat low
  rw [UInt16.toNat_shiftRight, Nat.shiftRight_eq_div_pow] at below
  rw [UInt16.toNat_toUInt8] at rest
  apply UInt16.toNat_inj.1
  change x.toNat / 256 = 0 at below
  change x.toNat % 256 = 0 at rest
  rw [← Nat.div_add_mod x.toNat 256, below, rest]
  rfl

/-- The sum of the answer is not 0: it has the byte 0xA3, and it is short. -/
theorem sum_answer_ne (small : len.toNat ≤ 29) {k : Nat} (le : k ≤ packectHeaderLen) :
    sum ((answer packet len sn).drop k) ≠ 0 := by
  intro zero
  have none := congrArg UInt16.toNat zero
  rw [toNat_sum] at none
  have kind : (0xA3 : UInt8) ∈ (answer packet len sn).drop k := by
    have byte : (answer packet len sn)[packectHeaderLen]? = some 0xA3 := rfl
    rw [← Nat.add_sub_of_le le, ← List.getElem?_drop] at byte
    exact List.mem_of_getElem? byte
  have some : 0xA3 ≤ (((answer packet len sn).drop k).map UInt8.toNat).sum :=
    List.single_le_sum (fun _ _ => Nat.zero_le _) _ (List.mem_map_of_mem kind)
  have few : (((answer packet len sn).drop k).map UInt8.toNat).sum ≤ 35 * 255 := by
    calc (((answer packet len sn).drop k).map UInt8.toNat).sum
        ≤ (((answer packet len sn).drop k).map UInt8.toNat).length • 255 := by
          refine List.sum_le_card_nsmul _ _ fun n mem => ?_
          obtain ⟨b, -, rfl⟩ := List.mem_map.1 mem
          exact Nat.le_of_lt_succ b.toNat_lt
      _ ≤ 35 * 255 := by
          rw [List.length_map, List.length_drop, length_answer, smul_eq_mul]
          exact Nat.mul_le_mul_right _ (by omega)
  rw [Nat.mod_eq_of_lt (by omega), UInt16.toNat_zero] at none
  omega

/-- Behind the answer come zeros, or nothing. -/
theorem not_relayed (small : len.toNat ≤ 29) : ¬ Relayed u packet len sn := by
  rintro ⟨⟨k, le, begins⟩, -⟩
  have byte {i : Nat} (b : UInt8) (lt : i < 2) (here : [(sum ((answer packet len sn).drop k)).toUInt8,
      (sum ((answer packet len sn).drop k) >>> 8).toUInt8][i]? = some b) : b = 0 := by
    have sent := List.prefix_iff_getElem?.1 begins ((answer packet len sn).length + i) (by rw [List.length_append]; exact Nat.add_lt_add_left lt _)
    rw [← List.getElem?_eq_getElem, List.getElem?_append_right (Nat.le_add_right _ _), Nat.add_sub_cancel_left, here, received_eq,
      List.getElem?_map] at sent
    obtain ⟨j, at_j, rfl⟩ := Option.map_eq_some_iff.1 sent
    obtain ⟨-, rfl⟩ := List.getElem?_eq_some_iff.1 at_j
    rw [List.getElem_range, List.getD_eq_default _ _ (Nat.le_add_right _ _)]
  have low := byte _ Nat.zero_lt_two rfl
  have high := byte _ Nat.one_lt_two rfl
  exact sum_answer_ne small le (eq_zero_of_bytes low high)

/-- **Answers of the module**: the header and the data of an answer get to the host, and the sum of an answer never does. -/
theorem sum_not_relayed (small : len.toNat ≤ 29) :
    answer packet len sn <+: received u packet len sn ∧ ¬ Relayed u packet len sn := by
  have fits : (answer packet len sn).length ≤ if 25 < len then 31 + 31 else 31 := by
    rw [length_answer]
    split
    case isTrue => omega
    case isFalse short =>
      have : len.toNat ≤ 25 := Nat.le_of_not_lt short
      omega
  refine ⟨?_, not_relayed small⟩
  rw [received_eq, List.prefix_iff_getElem?]
  intro i lt
  rw [List.getElem?_map, List.getElem?_range (by omega), Option.map_some, List.getD_eq_getElem _ _ lt]

/-- An answer of two bytes -/
theorem two_bytes_relayed :
    (2 : UInt8).toNat ≤ 29 ∧
      answer (fun i => UInt8.ofNat i.toNat) 2 9 <+: received ⟨0, fun _ => 0, 0, fun _ => none, fun _ => 0⟩ (fun i => UInt8.ofNat i.toNat) 2 9 ∧
      ¬ Relayed ⟨0, fun _ => 0, 0, fun _ => none, fun _ => 0⟩ (fun i => UInt8.ofNat i.toNat) 2 9 :=
  ⟨by decide, sum_not_relayed (by decide)⟩

/-- Where the sum of an answer of two bytes should be, there are zeros. -/
theorem two_bytes_not_summed :
    received ⟨0, fun _ => 0, 0, fun _ => none, fun _ => 0⟩ (fun i => UInt8.ofNat i.toNat) 2 9 =
        [0xAA, 0x57, 2, 0xFD, 9, 0xA3, 1, 2] ++ List.replicate 23 0 ∧
      ¬ Relayed ⟨0, fun _ => 0, 0, fun _ => none, fun _ => 0⟩ (fun i => UInt8.ofNat i.toNat) 2 9 :=
  ⟨by rw [received_eq]; rfl, not_relayed (by decide)⟩

end Answer

end QmkFirmware.Bluetooth.Dfu
