import QmkFirmware.Lib.Run
import QmkFirmware.Naginata.Code

/-!
# Every key is typed

A pressed key waits in the buffer, with its bit in the set, until the next
`naginata_type`, at the latest the one of its own release. That types a chord of all
the keys of the set, or else the keys of the buffer one by one, through a buffer of
32 bits: a key with a higher bit is lost there.
-/

namespace QmkFirmware.Naginata
open Lib

/-- A key has an entry of its own in the table in use. -/
def HasEntry (s : State) (key : NgKey) : Prop := ∃ entry ∈ s.table, entry.key = ngKey key

instance (s : State) (key : NgKey) : Decidable (HasEntry s key) :=
  inferInstanceAs (Decidable (∃ entry ∈ s.table, entry.key = ngKey key))

/-- Since `since` outputs were sent, an entry that contains the key was sent. -/
def SentSince (since : Nat) (key : NgKey) (s : State) : Prop :=
  ∃ entry, Output.sendString entry ∈ s.sent.drop since ∧ holds entry.key key

/-- `naginata_type` finds a chord, or every key of the buffer with an entry of its own is one
of the first 32. -/
def CanType (s : State) : Prop :=
  (s.table.find? fun entry => s.keycomb == entry.key).isSome ∨
    ∀ key ∈ s.ninputs, HasEntry s key → key.ctorIdx < 32

instance (s : State) : Decidable (CanType s) :=
  inferInstanceAs (Decidable (_ ∨ ∀ key ∈ s.ninputs, HasEntry s key → key.ctorIdx < 32))

/-- A press finds a slot in the buffer, and where an event calls `naginata_type`, it can type the
keys of the buffer. -/
def TypeOk (s : State) (e : Event) : Prop :=
  match e.keycode, s.isNaginata with
  | .ng key, true =>
    if e.pressed then
      s.ngChrcount < ngBuffer ∧ (s.isShingeta ∧ 0 < s.ngChrcount → CanType (gather key s))
    else 0 < s.ngChrcount → CanType s
  | _, _ => True

instance (s : State) (e : Event) : Decidable (TypeOk s e) := by
  unfold TypeOk
  split <;> infer_instance

/-- What waits to be typed: the key is in the buffer and in the set. -/
def Waits (key : NgKey) (s : State) : Prop := key ∈ s.ninputs ∧ holds s.keycomb key

/-! ## `naginata_type` -/

theorem SentSince.send {since : Nat} {key : NgKey} {s : State} (h : SentSince since key s) (out : List Output) :
    SentSince since key (s.send out) := by
  obtain ⟨entry, mem, has⟩ := h
  refine ⟨entry, ?_, has⟩
  unfold State.send
  rw [List.drop_append]
  exact List.mem_append_left _ mem

theorem sentSince_send {since : Nat} {key : NgKey} {s : State} {out : List Output} {entry : Entry}
    (le : since ≤ s.sent.length) (mem : Output.sendString entry ∈ out) (has : holds entry.key key) :
    SentSince since key (s.send out) := by
  refine ⟨entry, ?_, has⟩
  unfold State.send
  rw [List.drop_append_of_le_length le]
  exact List.mem_append_right _ mem

/-- A key of the first 32 survives the buffer `skey`. The bit of the shift key does not, but
that one is not among them. -/
theorem skey_eq {s : State} {key : NgKey} (low : key.ctorIdx < 32) :
    (skey s key).setWidth 64 = ngKey key := by
  have shift : (ngKey .lsft).setWidth 32 = 0#32 := by decide
  have keep : ((ngKey key).setWidth 32).setWidth 64 = ngKey key := by
    unfold ngKey
    rw [← BitVec.toNat_inj, BitVec.toNat_setWidth, BitVec.toNat_setWidth, BitVec.toNat_twoPow]
    have small : 2 ^ key.ctorIdx < 2 ^ 32 := Nat.pow_lt_pow_right (by decide) low
    have fits : 2 ^ key.ctorIdx < 2 ^ 64 := small.trans (by decide)
    rw [Nat.mod_eq_of_lt fits, Nat.mod_eq_of_lt small, Nat.mod_eq_of_lt fits]
  unfold skey
  split <;> simp only [shift, BitVec.or_zero, keep]

/-- A key of the first 32 that has an entry is typed by an entry that contains it. -/
theorem typedFor_eq {s : State} {key : NgKey} (has : HasEntry s key) (low : key.ctorIdx < 32) :
    ∃ entry, typedFor s key = some entry ∧ holds entry.key key := by
  obtain ⟨own, mem, eq⟩ := has
  unfold typedFor
  rw [skey_eq low]
  have found : (s.table.find? fun entry => ngKey key == entry.key).isSome := by
    rw [List.find?_isSome]
    exact ⟨own, mem, by simp [eq]⟩
  obtain ⟨entry, h⟩ := Option.isSome_iff_exists.mp found
  refine ⟨entry, h, ?_⟩
  have same : ngKey key = entry.key := by simpa using List.find?_some h
  rw [← same, holds_ngKey]
  exact decide_eq_true rfl

theorem SentSince.naginataType {since : Nat} {key : NgKey} {s : State} (h : SentSince since key s) :
    SentSince since key (naginataType s) := by
  unfold Naginata.naginataType
  split
  · exact h.send _
  · exact h.send _

/-- **`naginata_type` types what waits**, if it can. -/
theorem naginataType_types {since : Nat} {key : NgKey} {s : State} (waits : Waits key s) (can : CanType s)
    (has : HasEntry s key) (le : since ≤ s.sent.length) : SentSince since key (naginataType s) := by
  unfold Naginata.naginataType
  split
  next entry chord =>
    refine sentSince_send (s := s) le (List.mem_singleton_self _) ?_
    have same : s.keycomb = entry.key := by simpa using List.find?_some chord
    rw [← same]
    exact waits.2
  next none =>
    have low := (can.resolve_left (by simp [none])) key waits.1 has
    obtain ⟨entry, typed, contains⟩ := typedFor_eq has low
    refine sentSince_send (s := s) le ?_ contains
    exact List.mem_map_of_mem (List.mem_filterMap.mpr ⟨key, waits.1, typed⟩)

@[simp] theorem naginataType_table (s : State) : (naginataType s).table = s.table := by
  unfold naginataType
  split <;> rfl

@[simp] theorem naginataType_isNaginata (s : State) : (naginataType s).isNaginata = s.isNaginata := by
  unfold naginataType
  split <;> rfl

@[simp] theorem naginataType_keycomb (s : State) : (naginataType s).keycomb = s.keycomb := by
  unfold naginataType
  split <;> rfl

theorem le_naginataType (s : State) : s.sent.length ≤ (naginataType s).sent.length := by
  unfold naginataType
  split <;> simp [naginataClear, State.send]

/-! ## From the press of a key to its release -/

/-- A key whose press came after `since` outputs, with the mode on since then, was typed or
waits. -/
structure Kept (since : Nat) (key : NgKey) (s : State) : Prop where
  on : s.isNaginata = true
  entry : HasEntry s key
  le : since ≤ s.sent.length
  kept : SentSince since key s ∨ Waits key s

variable {since : Nat} {key : NgKey} {s : State}

theorem Kept.naginataType (h : Kept since key s) (can : CanType s) :
    Kept since key (naginataType s) ∧ SentSince since key (naginataType s) := by
  have sent : SentSince since key (Naginata.naginataType s) := by
    obtain sent | waits := h.kept
    · exact sent.naginataType
    · exact naginataType_types waits can h.entry h.le
  refine ⟨⟨?_, ?_, h.le.trans (le_naginataType s), .inl sent⟩, sent⟩
  · rw [naginataType_isNaginata]
    exact h.on
  · unfold HasEntry
    rw [naginataType_table]
    exact h.entry

@[simp] theorem gather_isNaginata (other : NgKey) : (gather other s).isNaginata = s.isNaginata := by
  unfold gather
  split <;> rfl

@[simp] theorem gather_isShingeta (other : NgKey) : (gather other s).isShingeta = s.isShingeta := by
  unfold gather
  split <;> rfl

@[simp] theorem gather_sent (other : NgKey) : (gather other s).sent = s.sent := by
  unfold gather
  split <;> rfl

@[simp] theorem gather_keycomb (other : NgKey) : (gather other s).keycomb = s.keycomb ||| ngKey other := by
  unfold gather
  split <;> rfl

theorem gather_ninputs (room : s.ngChrcount < ngBuffer) (other : NgKey) :
    (gather other s).ninputs = s.ninputs ++ [other] := by
  unfold gather
  rw [if_pos room]

theorem HasEntry.gather (h : HasEntry s key) (other : NgKey) : HasEntry (gather other s) key := by
  unfold HasEntry State.table
  rw [gather_isShingeta]
  exact h

/-- Another key is pressed. -/
theorem Kept.gather (h : Kept since key s) {other : NgKey} (room : s.ngChrcount < ngBuffer) :
    Kept since key (gather other s) := by
  refine ⟨by simpa using h.on, h.entry.gather other, by simpa using h.le, ?_⟩
  obtain sent | ⟨mem, holds⟩ := h.kept
  · left
    unfold SentSince
    rw [gather_sent]
    exact sent
  · right
    constructor
    · rw [gather_ninputs room]
      exact List.mem_append_left _ mem
    · rw [gather_keycomb, holds_or, holds]
      rfl

/-- The key itself is pressed. -/
theorem kept_gather (on : s.isNaginata = true) (entry : HasEntry s key) (room : s.ngChrcount < ngBuffer) :
    Kept s.sent.length key (gather key s) := by
  refine ⟨by simpa using on, entry.gather key, by simp, .inr ⟨?_, ?_⟩⟩
  · rw [gather_ninputs room]
    exact List.mem_append_right _ (List.mem_singleton_self _)
  · rw [gather_keycomb, holds_or, holds_ngKey]
    simp

/-- Another key is released. -/
theorem Kept.remove (h : Kept since key s) {other : NgKey} (ne : key ≠ other) :
    Kept since key { s with keycomb := s.keycomb &&& ~~~(ngKey other) } := by
  refine ⟨h.on, h.entry, h.le, ?_⟩
  obtain sent | ⟨mem, holds⟩ := h.kept
  · exact .inl sent
  · refine .inr ⟨mem, ?_⟩
    rw [holds_remove, holds]
    simpa using ne

/-! ## The events -/

/-- The parts of the state that typing is about -/
structure SameTyping (s t : State) : Prop where
  isNaginata : t.isNaginata = s.isNaginata
  isShingeta : t.isShingeta = s.isShingeta
  keycomb : t.keycomb = s.keycomb
  ninputs : t.ninputs = s.ninputs
  sent : t.sent = s.sent

theorem Kept.same {t : State} (h : Kept since key s) (same : SameTyping s t) : Kept since key t := by
  obtain ⟨isNaginata, isShingeta, keycomb, ninputs, sent⟩ := same
  refine ⟨isNaginata ▸ h.on, ?_, sent ▸ h.le, ?_⟩
  · unfold HasEntry State.table
    rw [isShingeta]
    exact h.entry
  · unfold SentSince Waits
    rw [keycomb, ninputs, sent]
    exact h.kept

theorem naginataMode_same (keycode : Keycode) (pressed : Bool) (s : State) :
    SameTyping s (naginataMode keycode pressed s) := by
  unfold naginataMode
  split
  · exact ⟨rfl, rfl, rfl, rfl, rfl⟩
  · split
    · split
      · exact ⟨rfl, rfl, rfl, rfl, rfl⟩
      · dsimp only
        split <;> exact ⟨rfl, rfl, rfl, rfl, rfl⟩
    · exact ⟨rfl, rfl, rfl, rfl, rfl⟩

/-- An event of a key of the input method, with the mode on -/
theorem record_ng {e : Event} {other : NgKey} (keycode : e.keycode = .ng other) (on : s.isNaginata = true) :
    record s e = (processNaginata (.ng other) e.pressed s).2 := by
  unfold record processRecordUser naginataMode
  simp [keycode, on]

/-- An event of a key that is none of the input method's, does not switch it and does not
change the table -/
theorem record_same {e : Event} (ng : ∀ other, e.keycode ≠ .ng other) (swsgt : e.keycode ≠ .swsgt)
    (lng1 : e.keycode ≠ .lng1) (lng2 : e.keycode ≠ .lng2) : SameTyping s (record s e) := by
  have mode := naginataMode_same e.keycode e.pressed s
  unfold record processRecordUser processNaginata
  split
  case h_1 h => exact absurd h swsgt
  case h_5 h => exact absurd h lng2
  case h_6 h => exact absurd h lng1
  case h_10 =>
    split
    · split
      next other h => exact absurd h (ng other)
      next => exact mode
    · exact ⟨rfl, rfl, rfl, rfl, rfl⟩
  all_goals first
    | exact ⟨rfl, rfl, rfl, rfl, rfl⟩
    | (dsimp only; split <;> exact ⟨rfl, rfl, rfl, rfl, rfl⟩)

/-- An event while a key is held: not its release, and not a switch of the mode or of the
table -/
structure WhileHeld (key : NgKey) (e : Event) : Prop where
  held : e.keycode = .ng key → e.pressed = true
  swsgt : e.keycode ≠ .swsgt
  lng1 : e.keycode ≠ .lng1
  lng2 : e.keycode ≠ .lng2

/-- What a press leads to, once the key is gathered -/
theorem Kept.record_press {e : Event} {other : NgKey} (keycode : e.keycode = .ng other) (pressed : e.pressed = true)
    (on : s.isNaginata = true) (h : Kept since key (Naginata.gather other s)) (can : TypeOk s e) :
    Kept since key (record s e) := by
  rw [record_ng keycode on]
  unfold TypeOk at can
  simp only [keycode, on, pressed, if_true] at can
  unfold processNaginata
  simp only [pressed, if_true]
  split
  next typing =>
    have count : 0 < s.ngChrcount := by
      have := gather_ninputs can.1 other
      simp only [State.ngChrcount, this, List.length_append, List.length_singleton] at typing ⊢
      omega
    exact (h.naginataType (can.2 ⟨by simpa using typing.1, count⟩)).1
  next => exact h

/-- **What one event does**: a key that was typed or waits stays so while it is held. -/
theorem Kept.record {e : Event} (h : Kept since key s) (held : WhileHeld key e) (can : TypeOk s e) :
    Kept since key (record s e) := by
  by_cases ng : ∃ other, e.keycode = .ng other
  · obtain ⟨other, keycode⟩ := ng
    cases pressed : e.pressed with
    | true =>
      have room : s.ngChrcount < ngBuffer := by
        unfold TypeOk at can
        simp only [keycode, h.on, pressed, if_true] at can
        exact can.1
      exact Kept.record_press keycode pressed h.on (h.gather room) can
    | false =>
      have ne : key ≠ other := by
        rintro rfl
        simp [held.held keycode] at pressed
      rw [record_ng keycode h.on]
      unfold TypeOk at can
      simp only [keycode, h.on, pressed, Bool.false_eq_true, if_false] at can
      unfold processNaginata
      simp only [pressed, Bool.false_eq_true, if_false]
      split
      next count => exact (h.naginataType (can count)).1.remove ne
      next => exact h.remove ne
  · exact h.same (record_same (fun other eq => ng ⟨other, eq⟩) held.swsgt held.lng1 held.lng2)

/-- The release types what still waits. -/
theorem Kept.record_release {e : Event} (h : Kept since key s) (keycode : e.keycode = .ng key)
    (pressed : e.pressed = false) (can : TypeOk s e) : SentSince since key (Naginata.record s e) := by
  rw [record_ng keycode h.on]
  unfold TypeOk at can
  simp only [keycode, h.on, pressed, Bool.false_eq_true, if_false] at can
  unfold processNaginata
  simp only [pressed, Bool.false_eq_true, if_false]
  split
  next count => exact (h.naginataType (can count)).2
  next count =>
    obtain sent | waits := h.kept
    · exact sent
    · exact absurd (List.length_pos_of_mem waits.1) count

/-- **Every key is typed**: from its press to its release, as long as no press finds the buffer
full and no key of the buffer is beyond what `skey` holds when it is typed by itself, a key with
an entry of its own is contained in an entry that is sent. -/
theorem pressed_key_typed {press release : Event} {between : List Event} (on : s.isNaginata = true)
    (has : HasEntry s key) (pressed : press.keycode = .ng key ∧ press.pressed = true)
    (held : ∀ e ∈ between, WhileHeld key e) (released : release.keycode = .ng key ∧ release.pressed = false)
    (can : Along record TypeOk s (press :: between ++ [release])) :
    SentSince s.sent.length key ((press :: between ++ [release]).foldl record s) := by
  obtain ⟨first, rest⟩ := can
  obtain ⟨during, last⟩ := Along.append.mp rest
  have room : s.ngChrcount < ngBuffer := by
    have first' := first
    unfold TypeOk at first'
    simp only [pressed.1, on, pressed.2, if_true] at first'
    exact first'.1
  have start : Kept s.sent.length key (record s press) :=
    Kept.record_press pressed.1 pressed.2 on (kept_gather on has room) first
  have waits : Kept s.sent.length key (between.foldl record (record s press)) :=
    Along.invariant (Kept s.sent.length key) (fun t e ht he => Kept.record ht he.1 he.2) start
      ((Along.of_forall held).and during)
  rw [List.cons_append, List.foldl_cons, List.foldl_append]
  exact waits.record_release released.1 released.2 last.1

/-- The mode switched on after the start -/
def switchedOn : State := record boot ⟨(5, 10), .lng1, true⟩

/-- A chord of `d` and `u`, typed by the second press. -/
theorem pressed_key_typed_chord :
    SentSince switchedOn.sent.length .d
      (([⟨(3, 3), .ng .d, true⟩, ⟨(2, 7), .ng .u, true⟩, ⟨(2, 7), .ng .u, false⟩, ⟨(3, 3), .ng .d, false⟩] :
        List Event).foldl record switchedOn) :=
  @pressed_key_typed .d switchedOn ⟨(3, 3), .ng .d, true⟩ ⟨(3, 3), .ng .d, false⟩
    [⟨(2, 7), .ng .u, true⟩, ⟨(2, 7), .ng .u, false⟩] (by decide) (by decide) (by decide)
    (by
      simp only [List.mem_cons, List.not_mem_nil, or_false, forall_eq_or_imp, forall_eq]
      exact ⟨⟨by decide, by decide, by decide, by decide⟩, by decide, by decide, by decide, by decide⟩)
    (by decide) (by decide)

/-- Two keys beyond the first 32 that are no chord, `3` and `4`: neither is typed. -/
theorem pressed_key_lost :
    switchedOn.isNaginata = true ∧ HasEntry switchedOn .n3 ∧
    ¬ SentSince switchedOn.sent.length .n3
      (([⟨(1, 3), .ng .n3, true⟩, ⟨(1, 4), .ng .n4, true⟩, ⟨(1, 3), .ng .n3, false⟩, ⟨(1, 4), .ng .n4, false⟩] :
        List Event).foldl record switchedOn) := by
  refine ⟨by decide, by decide, ?_⟩
  rintro ⟨entry, mem, -⟩
  revert mem
  have silent : (([⟨(1, 3), .ng .n3, true⟩, ⟨(1, 4), .ng .n4, true⟩, ⟨(1, 3), .ng .n3, false⟩,
      ⟨(1, 4), .ng .n4, false⟩] : List Event).foldl record switchedOn).sent = switchedOn.sent := by
    decide
  rw [silent, List.drop_length]
  exact List.not_mem_nil

end QmkFirmware.Naginata
