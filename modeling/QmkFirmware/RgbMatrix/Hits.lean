import QmkFirmware.Lib.Run
import QmkFirmware.RgbMatrix.Code

/-!
# What the hit buffer holds

The hits of the past with their ages, of which the buffer is to hold the last ones that are
not too old. A hit that expires next to fresh ones makes it hold the wrong ones.
-/

namespace QmkFirmware.RgbMatrix
open Lib

/-! ## The hits of the past -/

/-- A hit: its LED, where that is, and how long ago it was -/
structure Hit where
  x : BitVec 8
  y : BitVec 8
  index : BitVec 8
  age : Nat
  deriving DecidableEq

namespace Hit

/-- A hit of this moment -/
def now (cfg : Config) (led : BitVec 8) : Hit := ⟨(cfg.point led).1, (cfg.point led).2, led, 0⟩

/-- The hit some time later -/
def later (ms : Nat) (h : Hit) : Hit := { h with age := h.age + ms }

/-- Its age has not exceeded 65535 ms. -/
def Fresh (h : Hit) : Prop := h.age ≤ 65535

instance (h : Hit) : Decidable h.Fresh := inferInstanceAs (Decidable (_ ≤ _))

end Hit

/-- The last `size` elements -/
def lastOf {α : Type} (size : Nat) (l : List α) : List α := l.drop (l.length - size)

/-- The hits that are to be remembered, the oldest first -/
def recent (size : Nat) (hits : List Hit) : List Hit := lastOf size (hits.filter (·.Fresh))

/-- Older hits come first. -/
def Ordered (hits : List Hit) : Prop := hits.Pairwise fun h h' => h'.age ≤ h.age

section Lists

variable {size : Nat} {hits : List Hit}

theorem lastOf_append {α : Type} (size : Nat) (l l' : List α) :
    lastOf size (l ++ l') = lastOf size (lastOf size l ++ l') := by
  unfold lastOf
  rcases Nat.le_total l.length size with few | many
  · rw [Nat.sub_eq_zero_of_le few, List.drop_zero]
  · rw [List.length_append, List.length_append, List.length_drop]
    rw [List.drop_append, List.drop_append, List.drop_drop, List.length_drop]
    congr 2 <;> omega

theorem lastOf_map {α β : Type} (f : α → β) (size : Nat) (l : List α) : lastOf size (l.map f) = (lastOf size l).map f := by
  unfold lastOf
  rw [List.length_map, List.map_drop]

/-- New hits are remembered, and as many of the others as there is room for. -/
theorem recent_append {new : List Hit} (fresh : ∀ h ∈ new, h.Fresh) :
    recent size (hits ++ new) = lastOf size (recent size hits ++ new) := by
  unfold recent
  rw [List.filter_append, lastOf_append]
  have all : new.filter (fun h => decide h.Fresh) = new := List.filter_eq_self.2 fun h mem => decide_eq_true (fresh h mem)
  rw [all]

theorem take_append_lastOf {α : Type} (size : Nat) (l : List α) : l.take (l.length - size) ++ lastOf size l = l :=
  List.take_append_drop _ l

theorem lastOf_length {α : Type} (size : Nat) (l : List α) : (lastOf size l).length = min size l.length := by
  unfold lastOf
  rw [List.length_drop]
  omega

/-- What is not among the last elements can be left out. -/
theorem lastOf_filter {α : Type} {p : α → Bool} {l : List α} (all : ∀ a ∈ lastOf size l, p a = true) :
    lastOf size (l.filter p) = lastOf size l := by
  rcases Nat.le_total l.length size with few | many
  · unfold lastOf at all ⊢
    rw [Nat.sub_eq_zero_of_le few, List.drop_zero] at all ⊢
    rw [List.filter_eq_self.2 all, Nat.sub_eq_zero_of_le few, List.drop_zero]
  · have full : (lastOf size l).length = size := by
      rw [lastOf_length]
      omega
    have split : l.filter p = (l.take (l.length - size)).filter p ++ lastOf size l := by
      conv_lhs => rw [← take_append_lastOf size l]
      rw [List.filter_append, List.filter_eq_self.2 all]
    rw [split]
    generalize (l.take (l.length - size)).filter p = before
    unfold lastOf at full ⊢
    rw [List.length_append, full, Nat.add_sub_cancel, List.drop_left]

theorem recent_later (ms : Nat) : recent size (hits.map (·.later ms)) =
    (lastOf size ((hits.filter (·.Fresh)).filter fun h => (h.later ms).Fresh)).map (·.later ms) := by
  unfold recent
  rw [List.filter_map, lastOf_map, List.filter_filter]
  congr 2
  refine List.filter_congr fun h _ => ?_
  show decide (h.later ms).Fresh = (decide (h.later ms).Fresh && decide h.Fresh)
  rw [Bool.eq_iff_iff, Bool.and_eq_true, decide_eq_true_iff, decide_eq_true_iff]
  simp only [Hit.Fresh, Hit.later]
  omega

/-- Time passes, and none of them becomes too old. -/
theorem recent_later_of_fresh {ms : Nat} (stay : ∀ h ∈ recent size hits, (h.later ms).Fresh) :
    recent size (hits.map (·.later ms)) = (recent size hits).map (·.later ms) := by
  rw [recent_later, lastOf_filter fun h mem => decide_eq_true (stay h mem)]
  rfl

/-- Time passes, and all of them become too old. -/
theorem recent_later_of_expired {ms : Nat} (ordered : Ordered hits)
    (go : ∀ h ∈ recent size hits, ¬ (h.later ms).Fresh) : recent size (hits.map (·.later ms)) = [] := by
  rw [recent_later]
  rcases Nat.eq_zero_or_pos size with zero | positive
  · simp [lastOf, zero]
  have sorted : Ordered (hits.filter (·.Fresh)) := List.Pairwise.filter _ ordered
  unfold recent at go
  generalize hits.filter (·.Fresh) = fresh at go sorted ⊢
  have gone : ∀ h ∈ fresh, ¬ (h.later ms).Fresh := by
    intro h mem
    rw [← take_append_lastOf size fresh] at mem sorted
    rcases List.mem_append.1 mem with early | late
    · obtain ⟨last, here⟩ : ∃ last, last ∈ lastOf size fresh := by
        apply List.exists_mem_of_length_pos
        have := List.length_pos_of_mem early
        rw [lastOf_length]
        rw [List.length_take] at this
        omega
      have older := (List.pairwise_append.1 sorted).2.2 h early last here
      have expired := go last here
      simp only [Hit.Fresh, Hit.later] at expired ⊢
      omega
    · exact go h late
  rw [List.filter_eq_nil_iff.2 fun h mem => by simpa using gone h mem]
  simp [lastOf]

end Lists

/-! ## The buffer -/

namespace LastHit

/-- An entry -/
def entry (b : LastHit) (i : Nat) : Hit := ⟨b.x i, b.y i, b.index i, (b.tick i).toNat⟩

/-- What the buffer holds -/
def contents (b : LastHit) : List Hit := (List.range b.count.toNat).map b.entry

section Buffer

variable {cfg : Config} {b : LastHit} {size ledCount : Nat} {deltaTime : BitVec 32}

@[simp] theorem contents_length : b.contents.length = b.count.toNat := by simp [contents]

theorem toStart_of_lt {α : Type} {m : Nat → α} {i : Nat} (h : i < size - ledCount) :
    toStart size ledCount m i = m (ledCount + i) := by
  unfold toStart
  rw [patch_inside (Nat.zero_le _) (by simpa using h), getElem_slice, Nat.sub_zero]

theorem shift_count (fits : size - ledCount < 256) : (b.shift size ledCount).count.toNat = size - ledCount := by
  change (BitVec.ofNat 8 (size - ledCount)).toNat = _
  rw [BitVec.toNat_ofNat, Nat.mod_eq_of_lt fits]

/-- A full buffer loses its oldest entries. -/
theorem contents_shift (full : b.count.toNat = size) : (b.shift size ledCount).contents = b.contents.drop ledCount := by
  have kept : (b.shift size ledCount).count.toNat = size - ledCount := shift_count (by have := b.count.isLt; omega)
  refine List.ext_getElem ?_ fun i here _ => ?_
  · simp [kept, full]
  · have bound : i < size - ledCount := by rwa [contents_length, kept] at here
    simp [contents, entry, shift, toStart_of_lt bound]

/-- A new entry comes last. -/
theorem append_count (led : BitVec 8) (room : b.count.toNat + 1 < 256) : (append cfg b led).count.toNat = b.count.toNat + 1 := by
  change (b.count + 1).toNat = _
  bv_omega

theorem contents_append (led : BitVec 8) (room : b.count.toNat + 1 < 256) :
    (append cfg b led).contents = b.contents ++ [.now cfg led] := by
  unfold contents
  rw [append_count led room, List.range_succ, List.map_append]
  congr 1
  · refine List.map_congr_left fun i mem => ?_
    have ne : i ≠ b.count.toNat := Nat.ne_of_lt (List.mem_range.1 mem)
    simp [entry, append, ne]
  · simp [entry, append, Hit.now]

theorem contents_appendAll (led : List (BitVec 8)) (room : b.count.toNat + led.length < 256) :
    (led.foldl (append cfg) b).contents = b.contents ++ led.map (Hit.now cfg) := by
  induction led generalizing b with
  | nil => simp
  | cons l led ih =>
    rw [List.length_cons] at room
    have count := @append_count cfg b l (by omega)
    rw [List.foldl_cons, ih (by omega), contents_append _ (by omega), List.map_cons, List.append_assoc, List.singleton_append]

/-- The 32-bit comparison is right only for times of 16 bits. -/
theorem expires_iff {tick : BitVec 16} :
    expires deltaTime tick = true ↔ deltaTime.toNat ≤ 65535 ∧ 65535 < tick.toNat + deltaTime.toNat := by
  unfold expires
  rw [decide_eq_true_iff, BitVec.lt_def]
  have := tick.isLt
  have := deltaTime.isLt
  simp
  omega

/-- **What the loop does** before the turn `turns`: it counts the expired entries off and lets the others grow older, each at
its place. -/
theorem turns_spec (turns : Nat) : (List.range turns).foldl (turn deltaTime) b =
    { b with
      count := b.count - BitVec.ofNat 8 ((List.range turns).filter fun i => expires deltaTime (b.tick i)).length
      tick := fun i => if i < turns ∧ expires deltaTime (b.tick i) = false then b.tick i + deltaTime.truncate 16 else b.tick i } := by
  induction turns with
  | zero => simp
  | succ turns ih =>
    rw [List.range_succ, List.foldl_append, ih, List.foldl_cons, List.foldl_nil, List.filter_append, List.length_append]
    unfold turn
    have untouched : ¬ (turns < turns ∧ expires deltaTime (b.tick turns) = false) := fun h => Nat.lt_irrefl _ h.1
    simp only [untouched, if_false]
    have later (i : Nat) (ne : i ≠ turns) : i < turns + 1 ↔ i < turns := by omega
    cases expired : expires deltaTime (b.tick turns) with
    | true =>
      have counted : ([turns].filter fun i => expires deltaTime (b.tick i)).length = 1 := by simp [expired]
      rw [if_pos rfl, counted, BitVec.ofNat_add, ← sub_sub]
      congr 1
      funext i
      by_cases last : i = turns
      · subst last
        simp [expired]
      · simp only [later i last]
    | false =>
      have counted : ([turns].filter fun i => expires deltaTime (b.tick i)).length = 0 := by simp [expired]
      rw [if_neg Bool.false_ne_true, counted]
      congr 1
      funext i
      by_cases last : i = turns
      · subst last
        simp [expired]
      · rw [Function.update_of_ne last]
        simp only [later i last]

/-- Nothing expires. -/
theorem contents_timers_of_fresh (stay : ∀ h ∈ b.contents, (h.later deltaTime.toNat).Fresh) :
    (b.rgbTaskTimers deltaTime).contents = b.contents.map (·.later deltaTime.toNat) := by
  unfold rgbTaskTimers
  rw [turns_spec]
  have none : ∀ i < b.count.toNat, (b.tick i).toNat + deltaTime.toNat ≤ 65535 := by
    intro i bound
    exact stay (b.entry i) (List.mem_map.2 ⟨i, List.mem_range.2 bound, rfl⟩)
  have kept : ∀ i < b.count.toNat, expires deltaTime (b.tick i) = false := by
    intro i bound
    have := none i bound
    rw [Bool.eq_false_iff, Ne, expires_iff]
    omega
  rw [List.filter_eq_nil_iff.2 fun i mem => by simp [kept i (List.mem_range.1 mem)]]
  unfold contents
  dsimp only
  rw [List.length_nil, BitVec.sub_zero, List.map_map]
  refine List.map_congr_left fun i mem => ?_
  have bound : i < b.count.toNat := List.mem_range.1 mem
  have small := none i bound
  simp only [entry, Function.comp_apply, Hit.later, bound, kept i bound, and_self, if_true, Hit.mk.injEq, true_and]
  rw [BitVec.toNat_add, BitVec.truncate_eq_setWidth, BitVec.toNat_setWidth]
  omega

/-- Everything expires. -/
theorem contents_timers_of_expired (short : deltaTime.toNat ≤ 65535)
    (go : ∀ h ∈ b.contents, ¬ (h.later deltaTime.toNat).Fresh) : (b.rgbTaskTimers deltaTime).contents = [] := by
  unfold rgbTaskTimers
  rw [turns_spec]
  have all : ∀ i ∈ List.range b.count.toNat, expires deltaTime (b.tick i) = true := by
    intro i mem
    have gone := go (b.entry i) (List.mem_map.2 ⟨i, mem, rfl⟩)
    rw [expires_iff]
    simp only [Hit.Fresh, Hit.later, entry] at gone
    omega
  rw [List.filter_eq_self.2 all, List.length_range, BitVec.ofNat_toNat, BitVec.setWidth_eq, BitVec.sub_self]
  rfl

end Buffer

end LastHit

/-! ## Runs -/

/-- The buffer and all hits of the past; the latter are not in the code. -/
structure World where
  buffer : LastHit
  hits : List Hit

namespace World

variable (cfg : Config)

/-- At the start nothing has been hit. -/
def initial (b : LastHit) : World := ⟨b.init cfg.ledHitsToRemember, []⟩

/-- The LEDs that an event of a key hits -/
def leds (row column : BitVec 8) (pressed : Bool) : List (BitVec 8) :=
  if cfg.reaction.counts pressed then cfg.mapRowColumnToLed row column else []

def step (w : World) : Event → World
  | .key row column pressed =>
    ⟨w.buffer.step cfg (.key row column pressed), w.hits ++ (leds cfg row column pressed).map (Hit.now cfg)⟩
  | .timers deltaTime => ⟨w.buffer.step cfg (.timers deltaTime), w.hits.map (·.later deltaTime.toNat)⟩

/-- A key whose LEDs have no room, also in the eight bits of the count, finds the buffer full, or hits as many as it holds. When the
timers advance, the hits in the buffer expire together, within 65535 ms, or none of them does. -/
def Kept (w : World) : Event → Prop
  | .key row column pressed =>
    let hit := (leds cfg row column pressed).length
    (w.buffer.count.toNat + hit ≤ cfg.ledHitsToRemember ∧ w.buffer.count.toNat + hit < 256) ∨
      (w.buffer.count.toNat = cfg.ledHitsToRemember ∧ hit ≤ cfg.ledHitsToRemember) ∨ (hit = cfg.ledHitsToRemember ∧ hit < 256)
  | .timers deltaTime =>
    (∀ h ∈ w.buffer.contents, (h.later deltaTime.toNat).Fresh) ∨
      (deltaTime.toNat ≤ 65535 ∧ ∀ h ∈ w.buffer.contents, ¬ (h.later deltaTime.toNat).Fresh)

instance (w : World) : (e : Event) → Decidable (w.Kept cfg e)
  | .key _ _ _ => inferInstanceAs (Decidable (_ ∨ _))
  | .timers _ => inferInstanceAs (Decidable (_ ∨ _))

/-- The buffer holds what is to be remembered. -/
def Right (w : World) : Prop := w.buffer.contents = recent cfg.ledHitsToRemember w.hits ∧ Ordered w.hits

variable {cfg} {w : World}

/-- A hit of this moment is the youngest. -/
theorem ordered_append (ordered : Ordered w.hits) (led : List (BitVec 8)) : Ordered (w.hits ++ led.map (Hit.now cfg)) := by
  refine List.pairwise_append.2 ⟨ordered, ?_, ?_⟩
  · rw [List.pairwise_map]
    exact List.pairwise_of_forall fun _ _ => le_rfl
  · intro h _ h' mem
    obtain ⟨_, _, rfl⟩ := List.mem_map.1 mem
    exact Nat.zero_le _

theorem Right.key {row column : BitVec 8} {pressed : Bool} (right : w.Right cfg) (kept : w.Kept cfg (.key row column pressed)) :
    (w.step cfg (.key row column pressed)).Right cfg := by
  obtain ⟨held, ordered⟩ := right
  refine ⟨?_, ordered_append ordered _⟩
  have fresh : ∀ h ∈ (leds cfg row column pressed).map (Hit.now cfg), h.Fresh := by
    intro h mem
    obtain ⟨_, _, rfl⟩ := List.mem_map.1 mem
    exact Nat.zero_le _
  show (w.buffer.processRgbMatrix cfg row column pressed).contents = recent _ (w.hits ++ _)
  rw [recent_append fresh, ← held]
  unfold LastHit.processRgbMatrix
  change (List.foldl (LastHit.append cfg) (if cfg.ledHitsToRemember < w.buffer.count.toNat + (leds cfg row column pressed).length then
    w.buffer.shift cfg.ledHitsToRemember (leds cfg row column pressed).length else w.buffer) (leds cfg row column pressed)).contents = _
  unfold Kept at kept
  dsimp only at kept
  generalize leds cfg row column pressed = led at kept ⊢
  have total : (w.buffer.contents ++ led.map (Hit.now cfg)).length = w.buffer.count.toNat + led.length := by simp
  have small := w.buffer.count.isLt
  unfold lastOf
  rw [total]
  split
  case isFalse room =>
    rw [LastHit.contents_appendAll _ (by omega), Nat.sub_eq_zero_of_le (by omega), List.drop_zero]
  case isTrue crowded =>
    have left : (w.buffer.shift cfg.ledHitsToRemember led.length).count.toNat = cfg.ledHitsToRemember - led.length :=
      LastHit.shift_count (by omega)
    rw [LastHit.contents_appendAll _ (by omega)]
    rcases kept with room | ⟨full, most⟩ | ⟨many, -⟩
    · omega
    · rw [LastHit.contents_shift full, full, Nat.add_sub_cancel_left, List.drop_append_of_le_length (by simp; omega)]
    · have none : (w.buffer.shift cfg.ledHitsToRemember led.length).contents = [] := by
        unfold LastHit.contents
        rw [left, many, Nat.sub_self]
        rfl
      rw [none, many, Nat.add_sub_cancel, List.drop_left' (by simp)]
      rfl

theorem Right.timers {deltaTime : BitVec 32} (right : w.Right cfg) (kept : w.Kept cfg (.timers deltaTime)) :
    (w.step cfg (.timers deltaTime)).Right cfg := by
  obtain ⟨held, ordered⟩ := right
  refine ⟨?_, ?_⟩
  · show (w.buffer.rgbTaskTimers deltaTime).contents = recent _ (w.hits.map (·.later deltaTime.toNat))
    rcases kept with stay | ⟨short, go⟩
    · rw [LastHit.contents_timers_of_fresh stay, held, recent_later_of_fresh (held ▸ stay)]
    · rw [LastHit.contents_timers_of_expired short go, recent_later_of_expired ordered (held ▸ go)]
  · show Ordered (w.hits.map _)
    refine List.pairwise_map.2 (ordered.imp fun older => ?_)
    exact Nat.add_le_add_right older _

theorem right_initial (b : LastHit) : (initial cfg b).Right cfg := by
  refine ⟨?_, List.Pairwise.nil⟩
  simp [initial, LastHit.init, LastHit.contents, recent, lastOf]

/-- **The buffer holds the last hits** that are not too old, as long as every step keeps it so. -/
theorem hits_remembered (b : LastHit) {events : List Event} (kept : Along (step cfg) (Kept cfg) (initial cfg b) events) :
    let w := events.foldl (step cfg) (initial cfg b)
    w.buffer.contents = recent cfg.ledHitsToRemember w.hits := by
  refine (Along.invariant (Right cfg) (fun w e right here => ?_) (right_initial b) kept).1
  cases e with
  | key row column pressed => exact right.key here
  | timers deltaTime => exact right.timers here

/-- Each key has the LED of its column, and one key has those beside it as well. -/
def beside : Config where
  ledHitsToRemember := 8
  reaction := .keyPresses
  matrixCo _ column := column
  point led := (led, 2 * led)
  mapRowColumnToLedKb row column := if row = 1 then [column - 1, column + 1] else []

/-- Nothing was hit yet. -/
def noHits : LastHit := ⟨0, fun _ => 0, fun _ => 0, fun _ => 0, fun _ => 0⟩

/-- One hit expires, and a later one is remembered. -/
theorem hits_remembered_beside :
    let events : List Event := [.key 0 3 true, .key 0 3 false, .timers 65535, .timers 1, .key 1 5 true, .timers 100]
    (events.foldl (step beside) (initial beside noHits)).buffer.contents =
      [⟨4, 8, 4, 100⟩, ⟨6, 12, 6, 100⟩, ⟨5, 10, 5, 100⟩] := by
  intro events
  have kept : Along (step beside) (Kept beside) (initial beside noHits) events := by decide
  exact (hits_remembered noHits kept).trans (by decide)

/-- When the older of two hits expires, it is the younger one that is lost; where three LEDs have no room beside six, three
entries are dropped for one, and two that hold nothing count as hits; and after 65536 ms in one step a hit is as new. -/
theorem wrong_hits_held :
    let expiring : List Event := [.key 0 1 true, .timers 40000, .key 0 2 true, .timers 30000]
    let crowded : List Event := (List.range 6).map (fun i => .key 0 (BitVec.ofNat 8 i + 10) true) ++ [.key 1 5 true]
    let w := expiring.foldl (step beside) (initial beside noHits)
    let x := crowded.foldl (step beside) (initial beside noHits)
    let y := [.key 0 1 true, .timers 65536].foldl (step beside) (initial beside noHits)
    (w.buffer.contents ≠ recent 8 w.hits ∧ w.buffer.contents = [⟨1, 2, 1, 40000⟩] ∧ recent 8 w.hits = [⟨2, 4, 2, 30000⟩]) ∧
      (x.buffer.contents ≠ recent 8 x.hits ∧ x.buffer.contents.map (·.index) = [13, 14, 15, 0, 0, 4, 6, 5] ∧
        (recent 8 x.hits).map (·.index) = [11, 12, 13, 14, 15, 4, 6, 5]) ∧
      y.buffer.contents ≠ recent 8 y.hits ∧ y.buffer.contents = [⟨1, 2, 1, 0⟩] := by
  decide

end World

end QmkFirmware.RgbMatrix
