import QmkFirmware.Bluetooth.Receive

/-!
# Packets in the stream from the module

`ckbt51_task` takes its packets from a queue that the UART fills. A header is looked for where five bytes are there: a byte
that is not the first one of a header is dropped, and so are two bytes of which the first one only is. A first header
byte behind an odd one of the kind is dropped with it.
-/

namespace QmkFirmware.Bluetooth
open Lib

/-- The statics of `ckbt51_task` -/
structure Framer where
  waitForNewPkt : Bool
  len : UInt8
  sn : UInt8

def Ckbt51.framer (s : Ckbt51) : Framer := ⟨s.waitForNewPkt, s.len, s.sn⟩

/-- A call of `ckbt51_event_handler`: the packet in the array, and its number -/
structure Dispatch where
  packet : List UInt8
  sn : UInt8
  deriving DecidableEq, Repr

namespace Framer

/-- The first half of a call: what it leaves in the queue -/
def detect (s : Framer) : List UInt8 → Framer × List UInt8
  | a :: b :: length :: inverse :: sn :: rest =>
    if s.waitForNewPkt then
      if a = 0xAA then
        if b = 0x57 then (if ~~~length = inverse then ⟨false, length, sn⟩ else s, rest)
        else (s, length :: inverse :: sn :: rest)
      else (s, b :: length :: inverse :: sn :: rest)
    else (s, a :: b :: length :: inverse :: sn :: rest)
  | queue => (s, queue)

/-- The sum of bytes, in 16 bits -/
def sum (bytes : List UInt8) : UInt16 := bytes.foldl (fun sum b => sum + b.toUInt16) 0

/-- The array after a packet of `len` bytes was read into it -/
def array (zeroed : Contents) (len : Nat) (queue : List UInt8) : Contents :=
  fun i => if 0 ≤ i ∧ i < len then queue.getD i.toNat 0 else zeroed i

/-- The second half: the call of the handler, and what is left in the queue -/
def accept (zeroed : Contents) (s : Framer) (queue : List UInt8) : Option Dispatch × Framer × List UInt8 :=
  if s.waitForNewPkt = false ∧ s.len.toNat ≤ queue.length then
    let len := s.len.toNat
    let buf := array zeroed len queue
    let checksum := sum (queue.take (len - 2))
    (if checksum &&& 0xFF = (buf ((len : Int) - 2)).toUInt16 ∧ (checksum >>> 8) &&& 0xFF = (buf ((len : Int) - 1)).toUInt16
      then some ⟨queue.take len, s.sn⟩ else none, { s with waitForNewPkt := true }, queue.drop len)
  else (none, s, queue)

end Framer

/-! ## The code does this -/

/-- The UART in a call that finds this queue, and that gets these bytes between its two halves -/
def uart (s : Framer) (queue between : List UInt8) (stack : Contents) : Uart where
  queued := queue.length
  header := fun i => queue.getD i 0
  queuedThen := ((s.detect queue).2 ++ between).length
  packet := fun i => ((s.detect queue).2 ++ between)[i]?
  stack := stack

section Code

open Audited

variable {s : Ckbt51} {queue between : List UInt8} {stack : Contents}

theorem detect_short {s : Framer} {queue : List UInt8} (short : queue.length < 5) : s.detect queue = (s, queue) := by
  rcases queue with _ | ⟨a, _ | ⟨b, _ | ⟨x, _ | ⟨y, _ | ⟨z, rest⟩⟩⟩⟩⟩
  all_goals first | rfl | (simp only [List.length_cons] at short; omega)

theorem readHeader_framer : (readHeader s (uart s.framer queue between stack)).value.framer = (s.framer.detect queue).1 := by
  by_cases short : queue.length < 5
  · rw [detect_short short]
    unfold readHeader
    rw [if_neg]
    · rfl
    · rintro ⟨-, enough, -⟩
      exact absurd enough (Nat.not_le.2 short)
  obtain ⟨a, b, x, y, z, rest, rfl⟩ : ∃ a b x y z rest, queue = a :: b :: x :: y :: z :: rest := by
    rcases queue with _ | ⟨a, _ | ⟨b, _ | ⟨x, _ | ⟨y, _ | ⟨z, rest⟩⟩⟩⟩⟩
    all_goals first | exact ⟨_, _, _, _, _, _, rfl⟩ | (simp only [List.length_cons, List.length_nil] at short; omega)
  cases waiting : s.waitForNewPkt with
  | false =>
    unfold readHeader Framer.detect
    simp [Ckbt51.framer, waiting]
  | true =>
    unfold readHeader Framer.detect
    by_cases first : a = 0xAA
    · by_cases second : b = 0x57
      · by_cases inverse : ~~~x = y
        · simp [Ckbt51.framer, waiting, uart, first, second, inverse, put, note, Function.update]
        · simp [Ckbt51.framer, waiting, uart, first, second, inverse, put, note, Function.update]
      · simp [Ckbt51.framer, waiting, uart, first, second]
    · simp [Ckbt51.framer, waiting, uart, first]

theorem sum_snoc (bytes : List UInt8) (b : UInt8) : Framer.sum (bytes ++ [b]) = Framer.sum bytes + b.toUInt16 := by
  unfold Framer.sum
  rw [List.foldl_append]
  rfl

/-- The packet that is in the queue -/
theorem byte_of_queue {u : Uart} (packet : ∀ i, u.packet i = queue[i]?) {i : Nat} (lt : i < queue.length) :
    u.byte i = queue.getD i 0 := by
  unfold Uart.byte
  rw [packet, List.getElem?_eq_getElem lt, List.getD_eq_getElem _ _ lt]
  rfl

theorem sum_of_queue {u : Uart} (packet : ∀ i, u.packet i = queue[i]?) {n : Nat} (le : n ≤ queue.length) :
    u.sum n = Framer.sum (queue.take n) := by
  induction n with
  | zero => rfl
  | succ n ih =>
    have lt : n < queue.length := le
    rw [Uart.sum, ih (Nat.le_of_lt lt), byte_of_queue packet lt, List.take_add_one, List.getElem?_eq_getElem lt,
      List.getD_eq_getElem _ _ lt]
    exact (sum_snoc _ _).symm

theorem array_of_queue {u : Uart} (packet : ∀ i, u.packet i = queue[i]?) {n : Nat} (le : n ≤ queue.length) :
    (loop (fun i buf => put .packet buf i ((u.packet i).getD 0xFF)) n (u.zeroed .packet)).value =
      Framer.array (u.zeroed .packet) n queue := by
  funext i
  rw [packet_bytes, Framer.array]
  split_ifs with inside
  · exact byte_of_queue packet (by omega)
  · rfl

/-- What the handler does with a packet -/
def handled (u : Uart) (s : Ckbt51) (buf : Contents) : Option Dispatch → List Effect
  | none => []
  | some _ => (eventHandler u s (buf 0) buf (s.len - 3)).value.1

theorem readPacket_framer {u : Uart} (packet : ∀ i, u.packet i = queue[i]?) (queued : u.queuedThen = queue.length) :
    (readPacket s u).value.2.framer = (s.framer.accept (u.zeroed .packet) queue).2.1 ∧
    (readPacket s u).value.1 = handled u s (Framer.array (u.zeroed .packet) s.len.toNat queue)
      (s.framer.accept (u.zeroed .packet) queue).1 := by
  unfold readPacket Framer.accept
  rw [queued]
  by_cases ready : s.waitForNewPkt = false ∧ s.len.toNat ≤ queue.length
  case neg =>
    have ready' : ¬ (s.framer.waitForNewPkt = false ∧ s.framer.len.toNat ≤ queue.length) := ready
    rw [if_neg ready, if_neg ready']
    exact ⟨rfl, rfl⟩
  have ready' : s.framer.waitForNewPkt = false ∧ s.framer.len.toNat ≤ queue.length := ready
  rw [if_pos ready, if_pos ready']
  have le : s.len.toNat - 2 ≤ queue.length := Nat.le_trans (Nat.sub_le _ _) ready.2
  simp only [value_bind, value_get, array_of_queue packet ready.2]
  have sums : (loop (fun i sum => do
      pure (sum + (← get .packet (Framer.array (u.zeroed .packet) s.len.toNat queue) i).toUInt16)) (s.len.toNat - 2) 0).value =
      Framer.sum (queue.take (s.len.toNat - 2)) := by
    rw [← sum_of_queue packet le]
    refine packet_sum fun i lt => ?_
    rw [byte_of_queue packet (by omega)]
    exact if_pos (by omega)
  rw [sums]
  set checksum := Framer.sum (queue.take (s.len.toNat - 2)) with summed
  set buf := Framer.array (u.zeroed .packet) s.len.toNat queue with filled
  have len : s.framer.len = s.len := rfl
  rw [len, ← summed, ← filled]
  by_cases low : checksum &&& 0xFF = (buf ((s.len.toNat : Int) - 2)).toUInt16
  case neg =>
    simp only [ne_eq, low, not_false_eq_true, if_true, false_and, if_false]
    exact ⟨rfl, rfl⟩
  simp only [ne_eq, low, not_true_eq_false, if_false, value_bind, value_get, true_and]
  by_cases high : (checksum >>> 8) &&& 0xFF = (buf ((s.len.toNat : Int) - 1)).toUInt16
  case neg =>
    simp only [high, not_false_eq_true, if_true, if_false]
    exact ⟨rfl, rfl⟩
  simp only [high, not_true_eq_false, if_false, if_true]
  exact ⟨rfl, rfl⟩

/-- **The frames are the code's**: a call of `ckbt51_task` leaves the statics that the two halves leave, and calls the handler
where they say. -/
theorem task_framer :
    let u := uart s.framer queue between stack
    let t := (readHeader s u).value
    let result := (s.framer.detect queue).1.accept (u.zeroed .packet) ((s.framer.detect queue).2 ++ between)
    (ckbt51Task s u).value.2.framer = result.2.1 ∧
      (ckbt51Task s u).value.1 = handled u t
        (Framer.array (u.zeroed .packet) t.len.toNat ((s.framer.detect queue).2 ++ between)) result.1 := by
  intro u t result
  have header : t.framer = (s.framer.detect queue).1 := readHeader_framer
  have second := @readPacket_framer t ((s.framer.detect queue).2 ++ between) u (fun _ => rfl) rfl
  rw [header] at second
  exact second

end Code

/-! ## The stream -/

/-- A call: the bytes that have arrived before it and those that arrive between its halves, and what the stack holds -/
structure Call where
  before : List UInt8
  between : List UInt8
  stack : Contents

def Call.bytes (c : Call) : List UInt8 := c.before ++ c.between

/-- The driver, what waits in the queue of the UART, and the packets that were dispatched -/
structure Line where
  framer : Framer
  queue : List UInt8
  dispatched : List Dispatch

/-- One call of `ckbt51_task` -/
def Line.call (x : Line) (c : Call) : Line :=
  let first := x.framer.detect (x.queue ++ c.before)
  let u := uart x.framer (x.queue ++ c.before) c.between c.stack
  let second := first.1.accept (u.zeroed .packet) (first.2 ++ c.between)
  ⟨second.2.1, second.2.2, x.dispatched ++ second.1.toList⟩

/-- A packet that fits the array: a number, and one byte or more before the sum -/
structure Packet where
  sn : UInt8
  payload : List UInt8
  payload_ne : payload ≠ []
  payload_le : payload.length ≤ 30

namespace Packet

variable (p : Packet)

/-- The bytes behind the header -/
def bytes : List UInt8 := p.payload ++ [(Framer.sum p.payload).toUInt8, (Framer.sum p.payload >>> 8).toUInt8]

def len : UInt8 := UInt8.ofNat (p.payload.length + 2)

def frame : List UInt8 := 0xAA :: 0x57 :: p.len :: ~~~p.len :: p.sn :: p.bytes

/-- What the handler gets -/
def dispatch : Dispatch := ⟨p.bytes, p.sn⟩

variable {p}

theorem len_toNat : p.len.toNat = p.payload.length + 2 := by
  have le := p.payload_le
  rw [len, UInt8.toNat_ofNat']
  omega

theorem length_bytes : p.bytes.length = p.len.toNat := by
  rw [len_toNat, bytes, List.length_append]
  rfl

theorem len_le : p.len.toNat ≤ 32 := by
  have le := p.payload_le
  rw [len_toNat]
  omega

theorem len_ge : 3 ≤ p.len.toNat := by
  have pos := List.length_pos_iff.2 p.payload_ne
  rw [len_toNat]
  omega

end Packet

/-! ## The two halves of a call -/

namespace Framer

variable {s : Framer} {queue more : List UInt8} {zeroed : Contents} {p : Packet}

theorem detect_pending (pending : s.waitForNewPkt = false) (queue : List UInt8) : s.detect queue = (s, queue) := by
  unfold detect
  split
  · rw [pending]
    rfl
  · rfl

section Waiting

variable {a b x y z : UInt8} {rest : List UInt8}

theorem detect_header (waiting : s.waitForNewPkt = true) :
    s.detect (0xAA :: 0x57 :: x :: ~~~x :: z :: rest) = (⟨false, x, z⟩, rest) := by
  simp [detect, waiting]

theorem detect_five (waiting : s.waitForNewPkt = true) (other : ~~~x ≠ y) :
    s.detect (0xAA :: 0x57 :: x :: y :: z :: rest) = (s, rest) := by
  simp [detect, waiting, other]

theorem detect_two (waiting : s.waitForNewPkt = true) (other : b ≠ 0x57) (enough : 3 ≤ rest.length) :
    s.detect (0xAA :: b :: rest) = (s, rest) := by
  rcases rest with _ | ⟨x, _ | ⟨y, _ | ⟨z, rest⟩⟩⟩
  all_goals try (simp only [List.length_cons, List.length_nil] at enough; omega)
  simp [detect, waiting, other]

theorem detect_one (waiting : s.waitForNewPkt = true) (other : a ≠ 0xAA) (enough : 4 ≤ rest.length) :
    s.detect (a :: rest) = (s, rest) := by
  rcases rest with _ | ⟨b, _ | ⟨x, _ | ⟨y, _ | ⟨z, rest⟩⟩⟩⟩
  all_goals try (simp only [List.length_cons, List.length_nil] at enough; omega)
  simp [detect, waiting, other]

end Waiting

/-- What is behind five bytes does not matter. -/
theorem detect_append (enough : 5 ≤ queue.length) :
    s.detect (queue ++ more) = ((s.detect queue).1, (s.detect queue).2 ++ more) := by
  rcases queue with _ | ⟨a, _ | ⟨b, _ | ⟨x, _ | ⟨y, _ | ⟨z, rest⟩⟩⟩⟩⟩
  all_goals try (simp only [List.length_cons, List.length_nil] at enough; omega)
  simp only [List.cons_append, detect]
  split_ifs <;> rfl

/-- What the first half does: it drops bytes, or takes a header. -/
theorem detect_cases (queue : List UInt8) :
    ((s.detect queue).1 = s ∧ (s.detect queue).2.length ≤ queue.length) ∨
    (s.waitForNewPkt = true ∧ (s.detect queue).1.waitForNewPkt = false ∧ (s.detect queue).2.length + 5 = queue.length) := by
  unfold detect
  split
  · split_ifs with waiting first second inverse
    · exact Or.inr ⟨waiting, rfl, rfl⟩
    all_goals
      refine Or.inl ⟨rfl, ?_⟩
      simp only [List.length_cons]
      omega
  · exact Or.inl ⟨rfl, Nat.le_refl _⟩

theorem detect_shrinks (waiting : s.waitForNewPkt = true) (enough : 5 ≤ queue.length) :
    (s.detect queue).2.length < queue.length := by
  rcases queue with _ | ⟨a, _ | ⟨b, _ | ⟨x, _ | ⟨y, _ | ⟨z, rest⟩⟩⟩⟩⟩
  all_goals try (simp only [List.length_cons, List.length_nil] at enough; omega)
  simp only [detect, waiting, if_true]
  split_ifs
  all_goals
    simp only [List.length_cons]
    omega

theorem accept_waiting (waiting : s.waitForNewPkt = true) (queue : List UInt8) : s.accept zeroed queue = (none, s, queue) := by
  unfold accept
  rw [if_neg]
  rintro ⟨pending, -⟩
  rw [waiting] at pending
  cases pending

theorem accept_short (short : queue.length < s.len.toNat) : s.accept zeroed queue = (none, s, queue) := by
  unfold accept
  rw [if_neg]
  rintro ⟨-, enough⟩
  omega

/-- What is behind the packet does not matter. -/
theorem accept_append (enough : s.len.toNat ≤ queue.length) :
    s.accept zeroed (queue ++ more) =
      ((s.accept zeroed queue).1, (s.accept zeroed queue).2.1, (s.accept zeroed queue).2.2 ++ more) := by
  have same : array zeroed s.len.toNat (queue ++ more) = array zeroed s.len.toNat queue := by
    funext i
    unfold array
    split_ifs with inside
    · rw [List.getD_append _ _ _ _ (by omega)]
    · rfl
  have taken {n : Nat} (le : n ≤ s.len.toNat) : (queue ++ more).take n = queue.take n :=
    List.take_append_of_le_length (Nat.le_trans le enough)
  unfold accept
  by_cases pending : s.waitForNewPkt = false
  · rw [if_pos ⟨pending, by rw [List.length_append]; omega⟩, if_pos ⟨pending, enough⟩]
    dsimp only
    rw [same, taken (Nat.sub_le _ _), taken (Nat.le_refl _), List.drop_append_of_le_length enough]
  · rw [if_neg fun h => pending h.1, if_neg fun h => pending h.1]

/-- What the second half does: nothing, or it takes a packet. -/
theorem accept_cases (queue : List UInt8) :
    (s.accept zeroed queue = (none, s, queue)) ∨
    (s.waitForNewPkt = false ∧ s.len.toNat ≤ queue.length ∧ (s.accept zeroed queue).2.1.waitForNewPkt = true ∧
      (s.accept zeroed queue).2.2.length ≤ queue.length ∧
      ∀ d ∈ (s.accept zeroed queue).1, d.packet.length = s.len.toNat) := by
  unfold accept
  split_ifs with ready
  · refine Or.inr ⟨ready.1, ready.2, rfl, ?_, fun d mem => ?_⟩
    · rw [List.length_drop]
      exact Nat.sub_le _ _
    · dsimp only at mem
      split_ifs at mem with summed
      · cases mem
        rw [List.length_take, Nat.min_eq_left ready.2]
      · cases mem
  · exact Or.inl rfl

theorem low_byte (x : UInt16) : x &&& 0xFF = x.toUInt8.toUInt16 := by
  apply UInt16.toNat_inj.1
  rw [UInt16.toNat_and, UInt8.toNat_toUInt16, UInt16.toNat_toUInt8]
  exact Nat.and_two_pow_sub_one_eq_mod x.toNat 8

/-- A packet that was sent is dispatched. -/
theorem accept_packet (sn : UInt8) :
    (Framer.mk false p.len sn).accept zeroed p.bytes = (some ⟨p.bytes, sn⟩, ⟨true, p.len, sn⟩, []) := by
  have length : p.bytes.length = p.len.toNat := p.length_bytes
  have len : p.len.toNat = p.payload.length + 2 := p.len_toNat
  have byte {i : Nat} (lt : i < p.len.toNat) : array zeroed p.len.toNat p.bytes (i : Nat) = p.bytes.getD i 0 := by
    rw [array, if_pos ⟨by omega, by omega⟩, Int.toNat_natCast]
  have low : array zeroed p.len.toNat p.bytes ((p.len.toNat : Int) - 2) = (sum p.payload).toUInt8 := by
    rw [show (p.len.toNat : Int) - 2 = ((p.payload.length : Nat) : Int) by omega, byte (by omega), Packet.bytes,
      List.getD_append_right _ _ _ _ (Nat.le_refl _), Nat.sub_self]
    rfl
  have high : array zeroed p.len.toNat p.bytes ((p.len.toNat : Int) - 1) = (sum p.payload >>> 8).toUInt8 := by
    rw [show (p.len.toNat : Int) - 1 = ((p.payload.length + 1 : Nat) : Int) by omega, byte (by omega), Packet.bytes,
      List.getD_append_right _ _ _ _ (Nat.le_add_right _ 1), Nat.add_sub_cancel_left]
    rfl
  have payload : p.bytes.take (p.len.toNat - 2) = p.payload := by
    rw [len, Nat.add_sub_cancel, Packet.bytes]
    exact List.take_left' rfl
  unfold accept
  rw [if_pos ⟨rfl, Nat.le_of_eq length.symm⟩]
  dsimp only
  rw [payload, low, high, if_pos ⟨low_byte _, low_byte _⟩, List.take_of_length_le (Nat.le_of_eq length),
    List.drop_eq_nil_of_le (Nat.le_of_eq length)]

end Framer

/-! ## Noise -/

/-- No header: nowhere do the two header bytes stand before a length and its complement. -/
def Headerless (noise : List UInt8) : Prop := ∀ x, ¬ [0xAA, 0x57, x, ~~~x] <:+: noise

/-- Does dropping noise a byte, two bytes or five bytes at a time, as `detect` does, end where it ends? -/
def resyncs : List UInt8 → Bool
  | [] => true
  | a :: rest =>
    if a = 0xAA then
      match rest with
      | [] => false
      | b :: rest =>
        if b = 0x57 then
          match rest with
          | _ :: _ :: _ :: rest => resyncs rest
          | _ => false
        else resyncs rest
    else resyncs rest

theorem resyncs_one {a : UInt8} {noise : List UInt8} (other : a ≠ 0xAA) : resyncs (a :: noise) = resyncs noise := by
  conv_lhs => unfold resyncs
  exact if_neg other

theorem resyncs_two {b : UInt8} {noise : List UInt8} (other : b ≠ 0x57) : resyncs (0xAA :: b :: noise) = resyncs noise := by
  conv_lhs => unfold resyncs
  simp [other]

theorem Headerless.of_suffix {noise rest : List UInt8} (h : Headerless noise) (suffix : rest <:+ noise) : Headerless rest :=
  fun x infix' => h x (infix'.trans suffix.isInfix)

variable {p : Packet}

/-- Where the stream is: before the packet, in it, behind it; or the packet is lost. -/
inductive Phase (p : Packet) : Bool → Framer → List UInt8 → List Dispatch → Prop where
  | scanning {s : Framer} {noise : List UInt8} (waiting : s.waitForNewPkt = true) (quiet : Headerless noise) :
      Phase p (resyncs noise) s (noise ++ p.frame) []
  | receiving : Phase p true ⟨false, p.len, p.sn⟩ p.bytes []
  | done {s : Framer} (waiting : s.waitForNewPkt = true) : Phase p true s [] [p.dispatch]
  | lost {s : Framer} {left : List UInt8} {dispatched : List Dispatch} (few : left.length < p.len.toNat + 5)
      (other : s.waitForNewPkt = true ∨ s.len ≠ p.len ∨ left.length < p.len.toNat)
      (none : ∀ d ∈ dispatched, d.packet.length ≠ p.len.toNat) : Phase p false s left dispatched

namespace Phase

variable {good : Bool} {s : Framer} {left : List UInt8} {dispatched : List Dispatch} {zeroed : Contents}

/-- Bytes of the packet that are dropped are missing later. -/
theorem lost_of_waiting (waiting : s.waitForNewPkt = true) (few : left.length < p.len.toNat + 5) : Phase p false s left [] :=
  .lost few (Or.inl waiting) fun _ mem => absurd mem List.not_mem_nil

theorem detect_noise (waiting : s.waitForNewPkt = true) {noise : List UInt8} (quiet : Headerless noise) :
    Phase p (resyncs noise) (s.detect (noise ++ p.frame)).1 (s.detect (noise ++ p.frame)).2 [] := by
  have length := p.length_bytes
  have framed : (p.len :: ~~~p.len :: p.sn :: p.bytes).length = p.len.toNat + 3 := by
    simp only [List.length_cons, length]
  have frame : p.frame = 0xAA :: 0x57 :: p.len :: ~~~p.len :: p.sn :: p.bytes := rfl
  -- the first bytes of the frame, when they are dropped
  have dropped {n : Nat} (pos : 0 < n) : (p.frame.drop n).length < p.len.toNat + 5 := by
    rw [List.length_drop, frame]
    simp only [List.length_cons, length]
    omega
  have long {l : List UInt8} : 5 ≤ (l ++ p.frame).length := by
    rw [List.length_append, frame]
    simp only [List.length_cons]
    omega
  rcases noise with _ | ⟨a, noise⟩
  · rw [List.nil_append, frame, Framer.detect_header waiting]
    exact .receiving
  have suffix : Headerless noise := quiet.of_suffix (List.suffix_cons a noise)
  by_cases first : a = 0xAA
  case neg =>
    have dropped := Framer.detect_one waiting first (Nat.le_of_succ_le (long (l := noise)))
    rw [List.cons_append, dropped]
    rw [resyncs_one first]
    exact .scanning waiting suffix
  subst first
  rcases noise with _ | ⟨b, noise⟩
  · have taken : s.detect (0xAA :: p.frame) = (s, p.frame.drop 1) := Framer.detect_two waiting (by decide) (by
      simp only [List.length_cons]
      omega)
    rw [List.singleton_append, taken]
    exact lost_of_waiting waiting (dropped Nat.one_pos)
  replace suffix : Headerless noise := suffix.of_suffix (List.suffix_cons b noise)
  by_cases second : b = 0x57
  case neg =>
    have dropped := Framer.detect_two waiting second (Nat.le_of_succ_le (Nat.le_of_succ_le (long (l := noise))))
    rw [List.cons_append, List.cons_append, dropped]
    rw [resyncs_two second]
    exact .scanning waiting suffix
  subst second
  rcases noise with _ | ⟨x, _ | ⟨y, _ | ⟨z, noise⟩⟩⟩
  · -- the length would be a header byte
    have taken : s.detect (0xAA :: 0x57 :: p.frame) = (s, p.frame.drop 3) := Framer.detect_five waiting (by decide)
    change Phase p false (s.detect (0xAA :: 0x57 :: p.frame)).1 (s.detect (0xAA :: 0x57 :: p.frame)).2 []
    rw [taken]
    exact lost_of_waiting waiting (dropped (by decide))
  · change Phase p false (s.detect (0xAA :: 0x57 :: x :: p.frame)).1 (s.detect (0xAA :: 0x57 :: x :: p.frame)).2 []
    by_cases inverse : ~~~x = 0xAA
    · -- a header of a packet that is too long
      have taken : s.detect (0xAA :: 0x57 :: x :: p.frame) = (⟨false, x, 0x57⟩, p.frame.drop 2) := by
        have header := @Framer.detect_header s x 0x57 (p.frame.drop 2) waiting
        rwa [inverse] at header
      rw [taken]
      refine .lost (dropped (by decide)) (Or.inr (Or.inl ?_)) fun _ mem => absurd mem List.not_mem_nil
      rintro rfl
      have small := p.len_le
      have large : p.len = 0x55 := by
        rw [← @UInt8.not_not p.len, inverse]
        rfl
      rw [large] at small
      exact absurd small (by decide)
    · have taken : s.detect (0xAA :: 0x57 :: x :: p.frame) = (s, p.frame.drop 2) := Framer.detect_five waiting inverse
      rw [taken]
      exact lost_of_waiting waiting (dropped (by decide))
  · have inverse : ~~~x ≠ y := by
      rintro rfl
      exact quiet x (List.infix_refl _)
    have taken : s.detect (0xAA :: 0x57 :: x :: y :: p.frame) = (s, p.frame.drop 1) := Framer.detect_five waiting inverse
    change Phase p false (s.detect (0xAA :: 0x57 :: x :: y :: p.frame)).1 (s.detect (0xAA :: 0x57 :: x :: y :: p.frame)).2 []
    rw [taken]
    exact lost_of_waiting waiting (dropped Nat.one_pos)
  · have inverse : ~~~x ≠ y := by
      rintro rfl
      exact quiet x ⟨[], z :: noise, rfl⟩
    have taken : s.detect (0xAA :: 0x57 :: x :: y :: z :: noise ++ p.frame) = (s, noise ++ p.frame) :=
      Framer.detect_five waiting inverse
    rw [taken]
    exact .scanning waiting (suffix.of_suffix ⟨[x, y, z], rfl⟩)

/-- The first half of a call keeps where the stream is. -/
theorem detect (h : Phase p good s left dispatched) : Phase p good (s.detect left).1 (s.detect left).2 dispatched := by
  cases h with
  | scanning waiting quiet => exact detect_noise waiting quiet
  | receiving =>
    rw [Framer.detect_pending rfl]
    exact .receiving
  | done waiting => exact .done waiting
  | lost few other none =>
    obtain ⟨same, le⟩ | ⟨-, -, five⟩ := s.detect_cases left
    · refine .lost (Nat.lt_of_le_of_lt le few) ?_ none
      rw [same]
      exact other.imp_right fun other => other.imp_right fun lt => Nat.lt_of_le_of_lt le lt
    · exact .lost (by omega) (Or.inr (Or.inr (by omega))) none

/-- And so does the second. -/
theorem accept (h : Phase p good s left dispatched) : Phase p good (s.accept zeroed left).2.1 (s.accept zeroed left).2.2
    (dispatched ++ (s.accept zeroed left).1.toList) := by
  cases h with
  | scanning waiting quiet =>
    rw [Framer.accept_waiting waiting]
    exact .scanning waiting quiet
  | receiving =>
    rw [Framer.accept_packet]
    exact .done rfl
  | done waiting =>
    rw [Framer.accept_waiting waiting]
    exact .done waiting
  | lost few other none =>
    obtain same | ⟨pending, enough, waiting, le, taken⟩ := @Framer.accept_cases s zeroed left
    · rw [same]
      simpa using Phase.lost few other none
    · have len : s.len.toNat ≠ p.len.toNat := by
        rcases other with waiting | other | lt
        · rw [pending] at waiting
          cases waiting
        · exact fun eq => other (UInt8.toNat_inj.1 eq)
        · omega
      refine .lost (Nat.lt_of_le_of_lt le few) (Or.inl waiting) fun d mem => ?_
      rcases List.mem_append.1 mem with mem | mem
      · exact none d mem
      · rw [taken d (Option.mem_toList.1 mem)]
        exact len

/-- A part of a call that sees only what has arrived -/
theorem detect_part {more : List UInt8} (h : Phase p good s (left ++ more) dispatched) :
    Phase p good (s.detect left).1 ((s.detect left).2 ++ more) dispatched := by
  by_cases enough : 5 ≤ left.length
  · have whole := h.detect
    rwa [Framer.detect_append enough] at whole
  · rw [detect_short (Nat.lt_of_not_le enough)]
    exact h

theorem accept_part {more : List UInt8} (h : Phase p good s (left ++ more) dispatched) :
    Phase p good (s.accept zeroed left).2.1 ((s.accept zeroed left).2.2 ++ more)
      (dispatched ++ (s.accept zeroed left).1.toList) := by
  by_cases enough : s.len.toNat ≤ left.length
  · have whole := @accept p good s (left ++ more) dispatched zeroed h
    rwa [Framer.accept_append enough] at whole
  · rw [Framer.accept_short (Nat.lt_of_not_le enough)]
    simpa using h

/-- **What one call does**: the stream stays where it is between noise, packet and end. -/
theorem call {x : Line} {c : Call} {more : List UInt8} (h : Phase p good x.framer (x.queue ++ (c.bytes ++ more)) x.dispatched) :
    Phase p good (x.call c).framer ((x.call c).queue ++ more) (x.call c).dispatched := by
  have split : x.queue ++ (c.bytes ++ more) = x.queue ++ c.before ++ (c.between ++ more) := by
    simp [Call.bytes]
  rw [split] at h
  have first := h.detect_part
  rw [← List.append_assoc] at first
  exact first.accept_part

theorem calls (calls : List Call) : ∀ {x : Line}, Phase p good x.framer (x.queue ++ calls.flatMap Call.bytes) x.dispatched →
    Phase p good (calls.foldl Line.call x).framer (calls.foldl Line.call x).queue (calls.foldl Line.call x).dispatched := by
  induction calls with
  | nil =>
    intro x h
    simpa using h
  | cons c calls ih =>
    intro x h
    rw [List.flatMap_cons] at h
    exact ih h.call

/-- A call without new bytes takes some of those that are there. -/
theorem call_shrinks {x : Line} {c : Call} (h : Phase p true x.framer x.queue x.dispatched) (idle : c.bytes = []) :
    (x.call c).queue.length ≤ x.queue.length - 1 := by
  obtain ⟨before, between⟩ := List.append_eq_nil_iff.1 idle
  have taken (s : Framer) (zeroed : Contents) (queue : List UInt8) : (s.accept zeroed queue).2.2.length ≤ queue.length := by
    obtain same | ⟨-, -, -, le, -⟩ := @Framer.accept_cases s zeroed queue
    · rw [same]
    · exact le
  unfold Line.call
  rw [before, between, List.append_nil]
  dsimp only
  rw [List.append_nil]
  generalize (uart x.framer x.queue [] c.stack).zeroed .packet = zeroed
  have le := taken (x.framer.detect x.queue).1 zeroed (x.framer.detect x.queue).2
  generalize eq : x.queue = queue at h le ⊢
  generalize x.framer = s at h le ⊢
  generalize x.dispatched = dispatched at h
  generalize g : true = good at h
  cases h with
  | @scanning s noise waiting quiet =>
    have enough : 5 ≤ (noise ++ p.frame).length := by
      rw [List.length_append]
      simp only [Packet.frame, List.length_cons]
      omega
    have less := Framer.detect_shrinks waiting enough
    omega
  | receiving =>
    rw [Framer.detect_pending rfl, Framer.accept_packet]
    exact Nat.zero_le _
  | done waiting => exact le
  | lost => cases g

end Phase

/-- A packet that is lost is not dispatched. -/
theorem Phase.not_dispatched {s : Framer} {left : List UInt8} {dispatched : List Dispatch}
    (h : Phase p false s left dispatched) : p.dispatch ∉ dispatched := by
  generalize g : false = good at h
  cases h with
  | scanning => exact List.not_mem_nil
  | receiving => cases g
  | done => cases g
  | lost few other none => exact fun mem => none _ mem p.length_bytes

/-- At the end of the stream, calls enough come to the packet. -/
theorem Phase.idle {x : Line} (h : Phase p true x.framer x.queue x.dispatched) (idle : List Call)
    (none : ∀ c ∈ idle, c.bytes = []) (enough : x.queue.length ≤ idle.length) :
    (idle.foldl Line.call x).dispatched = [p.dispatch] := by
  induction idle generalizing x with
  | nil =>
    have empty : x.queue = [] := List.length_eq_zero_iff.1 (Nat.le_zero.1 enough)
    rw [empty] at h
    change x.dispatched = [p.dispatch]
    generalize x.framer = s at h
    generalize x.dispatched = dispatched at h ⊢
    generalize left : ([] : List UInt8) = queue at h
    generalize g : true = good at h
    cases h with
    | @scanning s noise =>
      rw [eq_comm, List.append_eq_nil_iff] at left
      exact absurd left.2 (List.cons_ne_nil _ _)
    | receiving =>
      have length := p.length_bytes
      have positive := p.len_ge
      rw [← left, List.length_nil] at length
      omega
    | done => rfl
    | lost => cases g
  | cons c idle ih =>
    have quiet := none c List.mem_cons_self
    have less := h.call_shrinks quiet
    have after : Phase p true x.framer (x.queue ++ (c.bytes ++ [])) x.dispatched := by simpa [quiet] using h
    have next := after.call
    rw [List.append_nil] at next
    exact ih next (fun c mem => none c (List.mem_cons_of_mem _ mem)) (by
      simp only [List.length_cons] at enough
      omega)

/-! ## Noise without header bytes -/

/-- How many first header bytes are at the end -/
def trailing (noise : List UInt8) : Nat := (noise.reverse.takeWhile (· == 0xAA)).length

theorem trailing_cons (a : UInt8) (noise : List UInt8) : trailing (a :: noise) =
    if trailing noise = noise.length then (if a = 0xAA then noise.length + 1 else noise.length) else trailing noise := by
  unfold trailing
  rw [List.reverse_cons, List.takeWhile_append, List.length_reverse]
  split_ifs with whole first
  · simp [first]
  · simp [first]
  · rfl

theorem trailing_le (noise : List UInt8) : trailing noise ≤ noise.length := by
  have le := (List.takeWhile_sublist (l := noise.reverse) (· == 0xAA)).length_le
  rwa [List.length_reverse] at le

/-- Noise with no two header bytes is dropped up to its end if and only if an even number of first header bytes end it. -/
theorem resyncs_iff_even {noise : List UInt8} (quiet : ¬ [0xAA, 0x57] <:+: noise) :
    resyncs noise = true ↔ Even (trailing noise) := by
  induction shorter : noise.length using Nat.strong_induction_on generalizing noise with
  | _ n ih =>
    subst shorter
    rcases noise with _ | ⟨a, noise⟩
    · exact ⟨fun _ => Even.zero, fun _ => rfl⟩
    have suffix : ¬ [0xAA, 0x57] <:+: noise := fun h => quiet (h.trans (List.infix_cons (List.infix_refl _)))
    have le := trailing_le noise
    by_cases first : a = 0xAA
    case neg =>
      have same : trailing (a :: noise) = trailing noise := by
        rw [trailing_cons, if_neg first]
        split_ifs with whole
        · exact whole.symm
        · rfl
      rw [resyncs_one first, same]
      exact ih noise.length (Nat.lt_succ_self _) suffix rfl
    subst first
    rcases noise with _ | ⟨b, noise⟩
    · exact iff_of_false (by decide) (by decide)
    have second : b ≠ 0x57 := by
      rintro rfl
      exact quiet ⟨[], noise, rfl⟩
    have rest := ih noise.length (by simp only [List.length_cons]; omega)
      (fun h => suffix (h.trans (List.infix_cons (List.infix_refl _)))) rfl
    rw [resyncs_two second, rest, trailing_cons, trailing_cons, List.length_cons]
    replace le := trailing_le noise
    -- two bytes more at the end, or none
    by_cases whole : trailing noise = noise.length
    · by_cases again : b = 0xAA
      · simp only [whole, again, if_true, Nat.even_add_one, not_not]
      · rw [if_pos whole, if_neg again, if_neg (by omega), whole]
    · rw [if_neg whole, if_neg (by omega)]

/-- **The framing resynchronises** if and only if dropping the noise ends where the noise ends: then, however the stream is split
over the calls, the packet is dispatched once, when it has arrived and there were calls enough. Noise without the two header
bytes is such if and only if an even number of first header bytes end it. -/
theorem resynchronises {noise : List UInt8} (quiet : Headerless noise) (p : Packet) {s : Framer} (waiting : s.waitForNewPkt = true)
    {calls : List Call} (split : calls.flatMap Call.bytes = noise ++ p.frame) :
    ((∃ n, ∀ idle : List Call, (∀ c ∈ idle, c.bytes = []) → n ≤ idle.length →
      ((calls ++ idle).foldl Line.call ⟨s, [], []⟩).dispatched = [p.dispatch]) ↔ resyncs noise = true) ∧
    (¬ [0xAA, 0x57] <:+: noise → (resyncs noise = true ↔ Even (trailing noise))) := by
  refine ⟨?_, resyncs_iff_even⟩
  have start : Phase p (resyncs noise) s ([] ++ calls.flatMap Call.bytes) [] := by
    rw [List.nil_append, split]
    exact .scanning waiting quiet
  have read := Phase.calls (x := ⟨s, [], []⟩) calls start
  set x := calls.foldl Line.call ⟨s, [], []⟩
  constructor
  · rintro ⟨n, idle⟩
    by_contra bad
    rw [Bool.not_eq_true] at bad
    have none : ∀ c ∈ List.replicate n (⟨[], [], fun _ => 0⟩ : Call), c.bytes = [] := by
      intro c mem
      rw [List.eq_of_mem_replicate mem]
      rfl
    have later := idle _ none (by rw [List.length_replicate])
    have whole : (calls ++ List.replicate n (⟨[], [], fun _ => 0⟩ : Call)).flatMap Call.bytes = noise ++ p.frame := by
      rw [List.flatMap_append, split, List.flatMap_eq_nil_iff.2 none, List.append_nil]
    rw [← List.nil_append (List.flatMap _ _)] at whole
    have gone : Phase p false s ([] ++ (calls ++ List.replicate n (⟨[], [], fun _ => 0⟩ : Call)).flatMap Call.bytes) [] := by
      rw [whole, ← bad]
      exact .scanning waiting quiet
    have lost := (Phase.calls (x := ⟨s, [], []⟩) _ gone).not_dispatched
    rw [later] at lost
    exact lost (List.mem_singleton_self _)
  · intro good
    rw [good] at read
    refine ⟨x.queue.length, fun idle none enough => ?_⟩
    rw [List.foldl_append]
    exact read.idle idle none enough

section Examples

/-- Host 1 has connected. -/
def connected : Packet where
  sn := 7
  payload := [0xB3, 0x20, 0, 1]
  payload_ne := List.cons_ne_nil _ _
  payload_le := Nat.le_of_ble_eq_true rfl

/-- A call that finds these bytes -/
def found (bytes : List UInt8) : Call := ⟨bytes, [], fun _ => 0⟩

theorem headerless_of_bytes {noise : List UInt8} (short : noise.length < 4) : Headerless noise := by
  intro x infix'
  have le := infix'.length_le
  simp only [List.length_cons, List.length_nil] at le
  omega

/-- Two bytes `0xAA` before the packet, which comes in three parts -/
theorem resynchronises_parts :
    ∃ n, ∀ idle : List Call, (∀ c ∈ idle, c.bytes = []) → n ≤ idle.length →
      (([found [0x12, 0xAA], found [0xAA, 0xAA, 0x57], ⟨connected.frame.drop 2, [], fun _ => 0⟩] ++ idle).foldl Line.call
        ⟨⟨true, 0xFF, 0⟩, [], []⟩).dispatched = [connected.dispatch] :=
  ((@resynchronises [0x12, 0xAA, 0xAA] (headerless_of_bytes (by decide)) connected ⟨true, 0xFF, 0⟩ rfl
    [found [0x12, 0xAA], found [0xAA, 0xAA, 0x57], ⟨connected.frame.drop 2, [], fun _ => 0⟩] rfl).1).2 (by decide)

/-- One byte `0xAA` before it takes its first byte away. -/
theorem packet_lost_behind_byte :
    ((found (0xAA :: connected.frame) :: List.replicate 20 (found [])).foldl Line.call ⟨⟨true, 0xFF, 0⟩, [], []⟩).dispatched = [] ∧
    ((found connected.frame :: List.replicate 20 (found [])).foldl Line.call ⟨⟨true, 0xFF, 0⟩, [], []⟩).dispatched =
      [connected.dispatch] := by
  decide +kernel

end Examples

end QmkFirmware.Bluetooth
