import QmkFirmware.Eeprom.L4Durability

/-!
# Blocks between the EEPROM and the caller's memory

Two bytes at a time are read, and up to four are written; which accesses are made of words
depends on the parity of the address and on that of the caller's buffer.
-/

namespace QmkFirmware.Eeprom.L4
open Lib

section Code

variable (c : Config)

/-- `EEPROM_ReadDataWord` -/
def eepromReadDataWord (s : State) (address : Nat) : Nat :=
  if address < c.densityBytes - 1 then
    if address % 2 ≠ 0 then (s.dataBuf address).toNat ||| (s.dataBuf (address + 1)).toNat <<< 8
    else ofBytes (slice s.dataBuf address 2)
  else 0xFFFF

/-- The loop of `eeprom_read_block`, and the byte it leaves -/
def readBlockLoop (s : State) (aligned : Bool) : Nat → (Nat → UInt8) → Nat → Nat → Nat → UInt8
  | 0, mem, _, _ => mem
  | 1, mem, dest, src => patch mem dest [eepromReadDataByte c s (src % 2 ^ 16)]
  | len + 2, mem, dest, src =>
    let value := eepromReadDataWord c s (src % 2 ^ 16)
    let mem := if aligned then patch mem dest (toBytes 2 value)
      else patch (patch mem dest [UInt8.ofNat value]) (dest + 1) [UInt8.ofNat (value >>> 8)]
    readBlockLoop s aligned len mem (dest + 2) (src + 2)

/-- `eeprom_read_block`: the caller's memory after it -/
def eepromReadBlock (s : State) (mem : Nat → UInt8) (dest src len : Nat) : Nat → UInt8 :=
  -- the unaligned first byte, behind which only `dest` moves on
  if len ≠ 0 ∧ src % 2 ≠ 0 then
    readBlockLoop c s ((dest + 1) % 2 == 0) (len - 1) (patch mem dest [eepromReadDataByte c s (src % 2 ^ 16)]) (dest + 1) src
  else readBlockLoop c s (dest % 2 == 0) len mem dest src

/-- The double word that `eeprom_write_block` takes from the caller's buffer -/
def loadDWord (mem : Nat → UInt8) (src : Nat) : Nat :=
  if src % 4 = 0 then ofBytes (slice mem src 4)
  else (mem src).toNat ||| (mem (src + 1)).toNat <<< 8 ||| (mem (src + 2)).toNat <<< 16 ||| (mem (src + 3)).toNat <<< 24

/-- The word that it takes -/
def loadWord (mem : Nat → UInt8) (src : Nat) : Nat :=
  if src % 2 = 0 then ofBytes (slice mem src 2) else (mem src).toNat ||| (mem (src + 1)).toNat <<< 8

/-- The loop of `eeprom_write_block` over the caller's buffer -/
def writeBufferLoop (mem : Nat → UInt8) : Nat → State → Nat → Nat → Nat → State
  | 0, s, _, _, _ => s
  | fuel + 1, s, src, dest, len =>
    if len = 0 then s
    else if dest % 4 = 0 ∧ 4 ≤ len then
      writeBufferLoop mem fuel (eepromWriteDataDWord c s (dest % 2 ^ 16) (loadDWord mem src)).2 (src + 4) (dest + 4) (len - 4)
    else if dest % 2 = 0 ∧ 2 ≤ len then
      writeBufferLoop mem fuel (eepromWriteDataWord c s (dest % 2 ^ 16) (loadWord mem src)).2 (src + 2) (dest + 2) (len - 2)
    else
      writeBufferLoop mem fuel (eepromWriteDataByte c s (dest % 2 ^ 16) (mem src).toNat).2 (src + 1) (dest + 1) (len - 1)

/-- `eeprom_write_block` with a buffer in the caller's memory -/
def eepromWriteBuffer (s : State) (mem : Nat → UInt8) (src dest len : Nat) : State :=
  writeBufferLoop c mem len s src dest len

end Code

variable {c : Config} {s : State}

/-! ## Words of bytes -/

theorem ofBytes_cons_or (b : UInt8) (l : List UInt8) : b.toNat ||| ofBytes l <<< 8 = ofBytes (b :: l) := by
  have low : b.toNat < 2 ^ 8 := b.toNat_lt
  rw [Nat.or_comm, ← Nat.shiftLeft_add_eq_or_of_lt low, Nat.shiftLeft_eq, ofBytes]
  omega

theorem ofBytes_pair (b d : UInt8) : b.toNat ||| d.toNat <<< 8 = ofBytes [b, d] := by
  rw [← ofBytes_cons_or]
  rfl

theorem slice_two (mem : Nat → UInt8) (a : Nat) : slice mem a 2 = [mem a, mem (a + 1)] := rfl

theorem loadWord_eq (mem : Nat → UInt8) (src : Nat) : loadWord mem src = ofBytes (slice mem src 2) := by
  unfold loadWord
  split
  · rfl
  · rw [ofBytes_pair, slice_two]

theorem loadDWord_eq (mem : Nat → UInt8) (src : Nat) : loadDWord mem src = ofBytes (slice mem src 4) := by
  unfold loadDWord
  split
  · rfl
  · have bytes : slice mem src 4 = [mem src, mem (src + 1), mem (src + 2), mem (src + 3)] := rfl
    rw [bytes, ← ofBytes_cons_or, ← ofBytes_cons_or, ← ofBytes_pair]
    simp only [Nat.shiftLeft_or_distrib, ← Nat.shiftLeft_add, Nat.or_assoc]

/-! ## Reading -/

theorem eepromReadDataWord_eq {address : Nat} (inside : address + 2 ≤ c.densityBytes) :
    eepromReadDataWord c s address = ofBytes (slice s.dataBuf address 2) := by
  unfold eepromReadDataWord
  rw [if_pos (by omega)]
  split
  · rw [ofBytes_pair, slice_two]
  · rfl

/-- The two ways to store a word -/
theorem patch_word (mem : Nat → UInt8) (dest : Nat) (b d : UInt8) :
    patch (patch mem dest [UInt8.ofNat (ofBytes [b, d])]) (dest + 1) [UInt8.ofNat (ofBytes [b, d] >>> 8)] =
      patch mem dest [b, d] := by
  have bytes : [b, d] = [UInt8.ofNat (ofBytes [b, d]), UInt8.ofNat (ofBytes [b, d] / 256)] :=
    (toBytes_ofBytes [b, d]).symm
  have whole := patch_append mem dest [UInt8.ofNat (ofBytes [b, d])] [UInt8.ofNat (ofBytes [b, d] / 256)]
  rw [Nat.shiftRight_eq_div_pow]
  rw [List.singleton_append, ← bytes] at whole
  exact whole.symm

theorem readBlockLoop_eq (aligned : Bool) (mem : Nat → UInt8) (dest src len : Nat) (inside : src + len ≤ c.densityBytes) :
    readBlockLoop c s aligned len mem dest src = patch mem dest (slice s.dataBuf src len) := by
  have small := c.density_le
  induction len using Nat.twoStepInduction generalizing mem dest src with
  | zero => simp [readBlockLoop]
  | one =>
    have address : src % 2 ^ 16 = src := Nat.mod_eq_of_lt (by omega)
    rw [readBlockLoop, address, eepromReadDataByte, if_pos (by omega)]
    rfl
  | more len ih _ =>
    have address : src % 2 ^ 16 = src := Nat.mod_eq_of_lt (by omega)
    have pieces := patch_append mem dest (slice s.dataBuf src 2) (slice s.dataBuf (src + 2) len)
    rw [← slice_add, length_slice, Nat.add_comm 2 len] at pieces
    rw [readBlockLoop, address, eepromReadDataWord_eq (by omega), pieces, ih _ _ _ (by omega)]
    congr 1
    cases aligned with
    | true => exact congrArg (patch mem dest) (toBytes_ofBytes (slice s.dataBuf src 2))
    | false => exact patch_word mem dest _ _

/-- What `eeprom_read_block` takes from a memory: the first byte of an odd address comes twice, and the last one is left out. -/
def blockRead (mem : Nat → UInt8) (addr : Nat) : Nat → List UInt8
  | 0 => []
  | len + 1 => if addr % 2 = 0 then slice mem addr (len + 1) else mem addr :: slice mem addr len

theorem blockRead_succ (mem : Nat → UInt8) (addr len : Nat) :
    blockRead mem addr (len + 1) = if addr % 2 = 0 then slice mem addr (len + 1) else mem addr :: slice mem addr len := rfl

@[simp] theorem length_blockRead (mem : Nat → UInt8) (addr len : Nat) : (blockRead mem addr len).length = len := by
  cases len with
  | zero => rfl
  | succ len =>
    rw [blockRead_succ]
    split <;> simp

theorem eepromReadBlock_eq (mem : Nat → UInt8) {dest src len : Nat} (inside : src + len ≤ c.densityBytes) :
    eepromReadBlock c s mem dest src len = patch mem dest (blockRead s.dataBuf src len) := by
  have small := c.density_le
  unfold eepromReadBlock
  cases len with
  | zero =>
    rw [if_neg fun h => h.1 rfl]
    exact readBlockLoop_eq _ _ _ _ _ inside
  | succ len =>
    rw [blockRead_succ]
    split_ifs with odd even even
    · exact absurd even odd.2
    · have address : src % 2 ^ 16 = src := Nat.mod_eq_of_lt (by omega)
      rw [readBlockLoop_eq _ _ _ _ _ (by omega), address, eepromReadDataByte, if_pos (by omega), Nat.add_sub_cancel]
      exact (patch_append mem dest [s.dataBuf src] _).symm
    · exact readBlockLoop_eq _ _ _ _ _ inside
    · exact absurd ⟨Nat.succ_ne_zero len, even⟩ odd

/-- The bytes of a range of which a block read does not show that it is behind by one: those of an even address, and bytes that are
all the same. -/
def ReadsTrue (addr : Nat) (bytes : List UInt8) : Prop :=
  addr % 2 = 0 ∨ ∀ k (_ : k + 1 < bytes.length), bytes[k + 1] = bytes[k]

theorem blockRead_eq_iff (mem : Nat → UInt8) (addr len : Nat) :
    blockRead mem addr len = slice mem addr len ↔ ReadsTrue addr (slice mem addr len) := by
  cases len with
  | zero => exact iff_of_true rfl (Or.inr fun k lt => absurd lt (Nat.not_lt_zero _))
  | succ len =>
    rw [blockRead_succ]
    unfold ReadsTrue
    by_cases even : addr % 2 = 0
    · simp [even]
    · rw [if_neg even, or_iff_right even, slice_succ, List.cons.injEq, and_iff_right rfl]
      rw [slice_eq_iff (by simp)]
      simp only [length_slice, List.length_cons, getElem_slice, Nat.add_lt_add_iff_right]
      refine forall₂_congr fun k lt => ?_
      cases k with
      | zero => simp [eq_comm]
      | succ k =>
        simp only [List.getElem_cons_succ, getElem_slice]
        rw [eq_comm, Nat.add_comm k 1, ← Nat.add_assoc, ← Nat.add_assoc]

/-- Patches of one place and length differ where their bytes do. -/
theorem patch_inj {mem : Nat → UInt8} {a : Nat} {l l' : List UInt8} (length : l.length = l'.length) :
    patch mem a l = patch mem a l' ↔ l = l' := by
  constructor
  · intro same
    have left := slice_patch_self mem a l
    rw [same, length, slice_patch_self] at left
    exact left.symm
  · rintro rfl
    rfl

theorem eepromReadBlock_iff (mem : Nat → UInt8) (dest : Nat) {src len : Nat} (inside : src + len ≤ c.densityBytes) :
    eepromReadBlock c s mem dest src len = patch mem dest (slice s.dataBuf src len) ↔ ReadsTrue src (slice s.dataBuf src len) := by
  rw [eepromReadBlock_eq mem inside, patch_inj (by simp), blockRead_eq_iff]

/-! ## Writing -/

/-- The writer takes the bytes of the buffer, whatever its alignment. -/
theorem writeBufferLoop_eq (mem : Nat → UInt8) (fuel : Nat) : ∀ (s : State) (src dest len : Nat),
    writeBufferLoop c mem fuel s src dest len = writeBlockLoop c fuel s dest (slice mem src len) := by
  induction fuel with
  | zero => exact fun _ _ _ _ => rfl
  | succ fuel ih =>
    intro s src dest len
    have pieces {n : Nat} (le : n ≤ len) :
        (slice mem src len).take n = slice mem src n ∧ (slice mem src len).drop n = slice mem (src + n) (len - n) := by
      obtain ⟨rest, rfl⟩ := Nat.exists_eq_add_of_le le
      rw [slice_add, Nat.add_sub_cancel_left]
      exact ⟨List.take_left' (length_slice _ _ _), List.drop_left' (length_slice _ _ _)⟩
    unfold writeBufferLoop writeBlockLoop
    rw [length_slice]
    by_cases none : len = 0
    · rw [if_pos none, if_pos none]
    rw [if_neg none, if_neg none]
    split_ifs with four two
    · rw [ih, (pieces four.2).1, (pieces four.2).2, loadDWord_eq]
    · rw [ih, (pieces two.2).1, (pieces two.2).2, loadWord_eq]
    · have one : 1 ≤ len := Nat.one_le_iff_ne_zero.2 none
      rw [ih, (pieces one).1, (pieces one).2]
      rfl

theorem issue_dataBuf (L : Layout) (op : FlashOp) : (s.issue L op).dataBuf = s.dataBuf := rfl

theorem eepromCompact_dataBuf : (eepromCompact c.toLayout s).2.dataBuf = s.dataBuf := (eepromCompact_spec (format c) s).2.1

theorem blankCheck_dataBuf {address : Nat} : (blankCheck c s address).dataBuf = s.dataBuf := by
  unfold blankCheck
  dsimp only
  split
  · split
    · exact issue_dataBuf _ _
    · exact eepromCompact_dataBuf
  · rfl

theorem writeLogEntry_dataBuf {flag n address : Nat} : (writeLogEntry c flag n s address).2.dataBuf = s.dataBuf := by
  unfold writeLogEntry
  split
  · exact eepromCompact_dataBuf
  · dsimp only
    rw [issue_dataBuf, blankCheck_dataBuf]

theorem eepromWriteDirectEntry_dataBuf {address : Nat} :
    (eepromWriteDirectEntry c.toLayout s address).2.dataBuf = s.dataBuf := by
  unfold eepromWriteDirectEntry
  dsimp only
  split
  · split
    · rfl
    · exact issue_dataBuf _ _
  · rfl

/-- What is written is in `DataBuf`, whatever the state of the flash. -/
theorem writeData_dataBuf {flag n : Nat} (kind : EntryKind flag n) {address : Nat} {src : List UInt8} (length : src.length = n)
    (range : address + n ≤ c.densityBytes) :
    (writeData c n (writeLogEntry c flag n) s address (ofBytes src)).2.dataBuf = patch s.dataBuf address src := by
  have positive : 0 < n := by rcases kind with ⟨-, rfl⟩ | ⟨-, rfl⟩ | ⟨-, rfl⟩ <;> omega
  have bytes : toBytes n (ofBytes src) = src := by
    rw [← length]
    exact toBytes_ofBytes src
  rw [writeData, if_neg (by omega)]
  split
  case isTrue same =>
    have there := toBytes_ofBytes (slice s.dataBuf address n)
    rw [length_slice, same, bytes] at there
    rw [there, patch_slice]
  case isFalse =>
    rw [bytes]
    have kept := @eepromWriteDirectEntry_dataBuf c { s with dataBuf := patch s.dataBuf address src } address
    generalize eepromWriteDirectEntry c.toLayout { s with dataBuf := patch s.dataBuf address src } address = result at kept ⊢
    obtain ⟨status, t⟩ := result
    cases status with
    | none => exact writeLogEntry_dataBuf.trans kept
    | some status => exact kept

theorem writeBlockLoop_dataBuf (fuel : Nat) : ∀ {s : State} {dest : Nat} {src : List UInt8},
    src.length ≤ fuel → dest + src.length ≤ c.densityBytes →
    (writeBlockLoop c fuel s dest src).dataBuf = patch s.dataBuf dest src := by
  have small := c.density_le
  induction fuel with
  | zero =>
    intro s dest src le _
    rw [List.length_eq_zero_iff.1 (Nat.le_zero.1 le), patch_nil]
    rfl
  | succ fuel ih =>
    intro s dest src le range
    have chunk {flag n : Nat} (kind : EntryKind flag n) (len : n ≤ src.length) :
        (writeBlockLoop c fuel (writeData c n (writeLogEntry c flag n) s (dest % 2 ^ 16) (ofBytes (src.take n))).2 (dest + n)
          (src.drop n)).dataBuf = patch s.dataBuf dest src := by
      have positive : 0 < n := by rcases kind with ⟨-, rfl⟩ | ⟨-, rfl⟩ | ⟨-, rfl⟩ <;> omega
      have taken : (src.take n).length = n := by simp [len]
      have pieces := patch_append s.dataBuf dest (src.take n) (src.drop n)
      rw [List.take_append_drop, taken] at pieces
      rw [pieces, ih (by simp; omega) (by simp; omega), Nat.mod_eq_of_lt (by omega : dest < 2 ^ 16),
        writeData_dataBuf kind taken (by omega)]
    unfold writeBlockLoop
    by_cases none : src.length = 0
    · rw [if_pos none, List.length_eq_zero_iff.1 none, patch_nil]
    rw [if_neg none]
    split_ifs with four two
    · exact chunk (Or.inr (Or.inr ⟨rfl, rfl⟩)) four.2
    · exact chunk (Or.inr (Or.inl ⟨rfl, rfl⟩)) two.2
    · exact chunk (Or.inl ⟨rfl, rfl⟩) (Nat.one_le_iff_ne_zero.2 none)

theorem eepromWriteBuffer_dataBuf (mem : Nat → UInt8) {src dest len : Nat} (inside : dest + len ≤ c.densityBytes) :
    (eepromWriteBuffer c s mem src dest len).dataBuf = patch s.dataBuf dest (slice mem src len) := by
  unfold eepromWriteBuffer
  rw [writeBufferLoop_eq]
  exact writeBlockLoop_dataBuf len (by rw [length_slice]) (by rw [length_slice]; exact inside)

/-- **When blocks read back.** `eeprom_read_block` stores the bytes of the range and nothing else exactly when the address is even
or the bytes are all the same: behind the first byte of an odd address it goes on with that byte. So it is for any contents, for a
block that has just been written, and for the data written last in any run from erased flash. -/
theorem block_reads_back_iff (mem : Nat → UInt8) {buf addr len : Nat} (inside : addr + len ≤ c.densityBytes) :
    (∀ s, eepromReadBlock c s mem buf addr len = patch mem buf (slice s.dataBuf addr len) ↔
      ReadsTrue addr (slice s.dataBuf addr len)) ∧
    (∀ s written src, eepromReadBlock c (eepromWriteBuffer c s written src addr len) mem buf addr len =
      patch mem buf (slice written src len) ↔ ReadsTrue addr (slice written src len)) ∧
    ∀ m₀ ops, Blank m₀ c.pageBaseAddress (c.pageCount * c.pageSize) → (∀ op ∈ ops, op.InRange c) → InitialisedFirst ops →
      (eepromReadBlock c (run c (State.start m₀) ops) mem buf addr len = patch mem buf (slice (logicalData ops) addr len) ↔
        ReadsTrue addr (slice (logicalData ops) addr len)) := by
  refine ⟨fun s => eepromReadBlock_iff mem buf inside, fun s written src => ?_, fun m₀ ops erased range first => ?_⟩
  · have read := eepromReadBlock_iff (s := eepromWriteBuffer c s written src addr len) mem buf inside
    have back := slice_patch_self s.dataBuf addr (slice written src len)
    rw [length_slice] at back
    rwa [eepromWriteBuffer_dataBuf written inside, back] at read
  · have zeros := sound_of_erased (c := c) erased
    have data (i : Nat) (lt : i < c.densityBytes) : (run c (State.start m₀) ops).dataBuf i = logicalData ops i := by
      rcases synced_of_first zeros range first with rfl | synced
      · rfl
      · exact synced.data i lt
    have read := eepromReadBlock_iff (s := run c (State.start m₀) ops) mem buf inside
    rwa [slice_congr fun i _ lt => data i (by omega)] at read

theorem block_reads_back_even :
    eepromReadBlock smallConfig (eepromWriteBuffer smallConfig (State.start fun _ => 0xFF) (fun i => UInt8.ofNat (i * 7)) 5 4 10)
      (fun _ => 9) 11 4 10 = patch (fun _ => 9) 11 (slice (fun i => UInt8.ofNat (i * 7)) 5 10) :=
  ((block_reads_back_iff (c := smallConfig) (fun _ => 9) (by decide)).2.1 _ _ _).2 (Or.inl rfl)

/-- Two bytes written at an odd address: the first one is read twice. -/
theorem block_read_behind :
    eepromReadBlock smallConfig (eepromWriteBuffer smallConfig (State.start fun _ => 0xFF) (fun i => UInt8.ofNat (i * 7)) 5 3 2)
      (fun _ => 9) 11 3 2 ≠ patch (fun _ => 9) 11 (slice (fun i => UInt8.ofNat (i * 7)) 5 2) := by
  intro same
  have second := congrFun same 12
  rw [eepromReadBlock_eq _ (by decide), eepromWriteBuffer_dataBuf _ (by decide)] at second
  exact absurd second (by decide)

end QmkFirmware.Eeprom.L4
