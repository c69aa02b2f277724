import QmkFirmware.Lib.Timer
import QmkFirmware.Debounce.Truthful

/-!
# Bounces

The files that defer a change make it when the raw value has lasted. A counter is started
at the call that sees the change, every call takes from it at most the time that has passed,
and a call that sees the old value stops it.
-/

namespace QmkFirmware.Debounce
open Lib

variable {rows cols fast : Nat} {I V K : Type} [Fintype I]

/-! ## Time -/

/-- A counter that `n` is left of: at least `d` ms after `t` have passed when it has expired. -/
def Runs (d t : Nat) (past : List (Call rows cols)) (lastTime : BitVec fast) (n : Nat) : Prop :=
  ∃ l ∈ past, lastTime = BitVec.ofNat fast l.now ∧ t + d ≤ l.now + n

section Runs

variable {d t n elapsed : Nat} {past : List (Call rows cols)} {c : Call rows cols} {lastTime lastTime' : BitVec fast}

theorem Runs.start (le : t ≤ c.now) : Runs d t (past ++ [c]) (BitVec.ofNat fast c.now) d :=
  ⟨c, by simp, rfl, by omega⟩

theorem Runs.over (h : Runs d t past lastTime n) (later : ∀ e ∈ past, e.now ≤ c.now)
    (le : elapsed ≤ (BitVec.ofNat fast c.now - lastTime).toNat) (expired : n ≤ elapsed) : t + d ≤ c.now := by
  obtain ⟨l, mem, rfl, left⟩ := h
  have passed := elapsed_le (w := fast) (later l mem)
  have := later l mem
  omega

theorem Runs.step (h : Runs d t past lastTime n) (later : ∀ e ∈ past, e.now ≤ c.now)
    (le : elapsed ≤ (BitVec.ofNat fast c.now - lastTime).toNat) (waits : elapsed ≤ n)
    (read : lastTime' = BitVec.ofNat fast c.now ∨ lastTime' = lastTime ∧ elapsed = 0) :
    Runs d t (past ++ [c]) lastTime' (n - elapsed) := by
  obtain ⟨l, mem, rfl, left⟩ := h
  have passed := elapsed_le (w := fast) (later l mem)
  have := later l mem
  rcases read with rfl | ⟨rfl, rfl⟩
  · exact ⟨c, by simp, rfl, by omega⟩
  · exact ⟨l, List.mem_append_left _ mem, rfl, left⟩

end Runs

/-! ## A cell of the common frame -/

/-- No time changes nothing. -/
structure Bodies.Idle (bodies : Bodies V K) : Prop where
  cooked : ∀ raw cooked counter, (bodies.update 0 raw cooked counter).cooked = cooked
  counter : ∀ raw cooked counter, (bodies.update 0 raw cooked counter).counter = counter
  need : ∀ raw cooked counter, (bodies.update 0 raw cooked counter).matrixNeedUpdate = false

theorem idle_deferPk (d : Nat) : (deferPk d).Idle := by
  constructor
  · intro raw cooked counter
    rw [deferPk_update]
    simp
  · intro raw cooked counter
    rw [deferPk_update]
    rfl
  · intro raw cooked counter
    rw [deferPk_update]

theorem idle_asym (d : Nat) : (asym d).Idle := by
  constructor
  · intro raw cooked counter
    rw [asym_update]
    simp
  · intro raw cooked counter
    rw [asym_update]
    rfl
  · intro raw cooked counter
    rw [asym_update]
    simp

theorem idle_eager [DecidableEq V] (accept : V → V → V × Bool) (d : Nat) : (eager accept d).Idle := by
  constructor
  · intro raw cooked counter
    rw [eager_update]
  · intro raw cooked counter
    rw [eager_update]
    rfl
  · intro raw cooked counter
    rw [eager_update]
    simp

namespace Frame

variable {bodies : Bodies V K} {raw cooked : I → V} {changed : Bool} {now : Nat} {s : Frame fast I K}

omit [Fintype I] in
theorem elapsed_le : s.elapsed now ≤ (BitVec.ofNat fast now - s.lastTime).toNat := by
  unfold elapsed
  split
  · exact min_le_left _ _
  · exact Nat.zero_le _

/-- The first part of a call, at a cell -/
theorem elapse_cell (idle : bodies.Idle) (i : I) :
    let mid := bodies.update (s.elapsed now) (raw i) (cooked i) (s.counters i)
    let out := s.elapse bodies raw cooked now
    out.2.1 i = mid.cooked ∧ out.1.counters i = mid.counter ∧ (mid.matrixNeedUpdate = true → out.1.matrixNeedUpdate = true) ∧
      (out.1.lastTime = BitVec.ofNat fast now ∨ out.1.lastTime = s.lastTime ∧ s.elapsed now = 0) := by
  have still : (bodies.update 0 (raw i) (cooked i) (s.counters i)).matrixNeedUpdate = true → s.matrixNeedUpdate = true := by
    intro need
    rw [idle.need] at need
    exact absurd need Bool.false_ne_true
  unfold elapse elapsed
  split
  case isTrue =>
    dsimp only
    generalize min (BitVec.ofNat fast now - s.lastTime).toNat 255 = elapsed
    split
    case isTrue => exact ⟨rfl, rfl, fun need => decide_eq_true ⟨i, need⟩, .inl rfl⟩
    case isFalse zero =>
      obtain rfl : elapsed = 0 := Nat.eq_zero_of_not_pos zero
      exact ⟨(idle.cooked _ _ _).symm, (idle.counter _ _ _).symm, still, .inl rfl⟩
  case isFalse => exact ⟨(idle.cooked _ _ _).symm, (idle.counter _ _ _).symm, still, .inr ⟨rfl, rfl⟩⟩

/-- A call, at a cell: it is left as the first part has it, or transferred. -/
theorem debounce_cell (idle : bodies.Idle) (i : I) :
    let mid := bodies.update (s.elapsed now) (raw i) (cooked i) (s.counters i)
    let out := s.debounce bodies raw cooked changed now
    (changed = false ∧ mid.matrixNeedUpdate = false ∧ out.2.1 i = mid.cooked ∧ out.1.counters i = mid.counter ∧
        (out.1.lastTime = BitVec.ofNat fast now ∨ out.1.lastTime = s.lastTime ∧ s.elapsed now = 0)) ∨
      (out.2.1 i = (bodies.transfer (raw i) mid.cooked mid.counter).cooked ∧
        out.1.counters i = (bodies.transfer (raw i) mid.cooked mid.counter).counter ∧
        out.1.lastTime = BitVec.ofNat fast now) := by
  obtain ⟨cooked_i, counter_i, need_i, time⟩ := @elapse_cell fast I V K _ bodies raw cooked now s idle i
  unfold debounce
  generalize s.elapse bodies raw cooked now = t at cooked_i counter_i need_i time ⊢
  obtain ⟨t, middle, first⟩ := t
  dsimp only at cooked_i counter_i need_i time ⊢
  rw [← cooked_i, ← counter_i]
  split
  case isTrue => exact .inr ⟨rfl, rfl, rfl⟩
  case isFalse off =>
    rw [Bool.not_eq_true, Bool.or_eq_false_iff] at off
    refine .inl ⟨off.1, ?_, rfl, rfl, time⟩
    by_contra need
    rw [Bool.not_eq_false] at need
    rw [need_i need] at off
    exact absurd off.2 (by decide)

end Frame

/-! ## What is observed before a change -/

/-- The calls from one on that was made `d` ms or more before `now` all read a matrix with a property. -/
def Observed (d : Nat) (p : Matrix rows cols → Prop) (calls : List (Call rows cols)) (now : Nat) : Prop :=
  ∃ e during, e :: during <:+ calls ∧ e.now + d ≤ now ∧ ∀ c ∈ e :: during, p c.raw

/-- `DEBOUNCE` of a file, which some of them limit -/
def Algorithm.window (DEBOUNCE : Nat) : Algorithm → Nat
  | .symDeferPk => min DEBOUNCE 255
  | .symEagerPr => min DEBOUNCE 255
  | .symEagerPk => min DEBOUNCE 255
  | .asymEagerDeferPk => min DEBOUNCE 127
  | _ => DEBOUNCE

/-- The changes that are deferred, by the value before: `asym_eager_defer_pk.c` defers releases. -/
def Algorithm.Defers : Algorithm → Bool → Prop
  | .symDeferG, _ => True
  | .symDeferPr, _ => True
  | .symDeferPk, _ => True
  | .asymEagerDeferPk, pressed => pressed = true
  | _, _ => False

/-- A matrix read before a change of a key: the key differs, and with it its row or the whole matrix is as at the change. -/
def Algorithm.Shows (a : Algorithm) (raw cooked : Matrix rows cols) (r : Fin rows) (k : Fin cols) (seen : Matrix rows cols) : Prop :=
  seen r k ≠ cooked r k ∧
    match a with
    | .symDeferG => seen = raw
    | .symDeferPr => seen r = raw r
    | _ => True

/-- A deferred change of a key in a call, after other calls, was observed for `DEBOUNCE` ms. -/
def Filtered {fast start DEBOUNCE : Nat} (a : Algorithm) (x : World (a.file fast start DEBOUNCE : File rows cols))
    (past : List (Call rows cols)) (c : Call rows cols) : Prop :=
  ∀ r k, (x.step c).cooked r k ≠ x.cooked r k → a.Defers (x.cooked r k) →
    Observed (a.window DEBOUNCE) (a.Shows c.raw x.cooked r k) (past ++ [c]) c.now

/-- The calls are made in the order of their times. -/
def InOrder (calls : List (Call rows cols)) : Prop := calls.Pairwise (·.now ≤ ·.now)

section Observed

variable {d : Nat} {p : Matrix rows cols → Prop} {past : List (Call rows cols)} {c : Call rows cols}

theorem Observed.here (now : p c.raw) : Observed 0 p (past ++ [c]) c.now :=
  ⟨c, [], List.suffix_append past [c], le_rfl, by simpa using now⟩

theorem InOrder.later (h : InOrder (past ++ [c])) : ∀ e ∈ past, e.now ≤ c.now := fun e mem =>
  (List.pairwise_append.1 h).2.2 e mem c (List.mem_singleton_self c)

theorem InOrder.before (h : InOrder (past ++ [c])) : InOrder past := (List.pairwise_append.1 h).1

/-- The calls since one, to the next call -/
theorem suffix_snoc {e : Call rows cols} {during : List (Call rows cols)} {p : Call rows cols → Prop} (suffix : e :: during <:+ past)
    (seen : ∀ c ∈ e :: during, p c) (now : p c) : e :: (during ++ [c]) <:+ past ++ [c] ∧ ∀ e' ∈ e :: (during ++ [c]), p e' := by
  obtain ⟨before, rfl⟩ := suffix
  refine ⟨⟨before, by simp⟩, ?_⟩
  intro e' mem
  rw [← List.cons_append, List.mem_append, List.mem_singleton] at mem
  rcases mem with mem | last
  · exact seen e' mem
  · exact last ▸ now

/-- An invariant of the world and the calls that were made, which every further call keeps -/
theorem World.kept (file : File rows cols) (Inv : World file → List (Call rows cols) → Prop) (start : Inv (.start file) [])
    (keep : ∀ x past c, Inv x past → (∀ e ∈ past, e.now ≤ c.now) → Inv (x.step c) (past ++ [c]))
    (past : List (Call rows cols)) (order : InOrder past) : Inv (past.foldl World.step (.start file)) past := by
  induction past using List.reverseRecOn with
  | nil => exact start
  | append_singleton past c ih =>
    rw [List.foldl_append]
    exact keep _ past c (ih order.before) order.later

end Observed

/-! ### Counters in the common frame -/

/-- What the bodies of a file do with the counter of a deferred change. `waits` is what is left of it, `defers` says which values
defer a change. -/
structure Bodies.Defer (bodies : Bodies Bool K) (waits : K → Nat) (d : Nat) (defers : Bool → Prop) : Prop extends bodies.Idle where
  update_waits : ∀ elapsed raw cooked counter, waits (bodies.update elapsed raw cooked counter).counter = waits counter - elapsed
  update_cooked : ∀ elapsed raw cooked counter, waits counter = 0 ∨ elapsed < waits counter → defers cooked →
    (bodies.update elapsed raw cooked counter).cooked = cooked
  update_raw : ∀ elapsed raw cooked counter, (bodies.update elapsed raw cooked counter).cooked = cooked ∨
    (bodies.update elapsed raw cooked counter).cooked = raw
  transfer_cooked : ∀ raw cooked counter, defers cooked → (bodies.transfer raw cooked counter).cooked = cooked
  transfer_waits : ∀ raw cooked counter, waits (bodies.transfer raw cooked counter).counter ≠ 0 →
    raw ≠ cooked ∧ (bodies.transfer raw cooked counter).cooked = cooked ∧
      (waits (bodies.transfer raw cooked counter).counter = waits counter ∧ waits counter ≠ 0 ∨
        waits (bodies.transfer raw cooked counter).counter = d ∧ defers cooked)

theorem defer_deferPk (d : Nat) : (deferPk d).Defer id d fun _ => True := by
  refine ⟨idle_deferPk d, ?_, ?_, ?_, ?_, ?_⟩
  · intro elapsed raw cooked counter
    rw [deferPk_update]
    rfl
  · intro elapsed raw cooked counter waits _
    rw [deferPk_update]
    refine if_neg ?_
    rintro ⟨runs, expired⟩
    rcases waits with zero | waits
    · exact runs zero
    · exact absurd expired (not_le.2 waits)
  · intro elapsed raw cooked counter
    rw [deferPk_update]
    exact (ite_eq_or_eq _ _ _).symm
  · intro raw cooked counter _
    by_cases same : raw = cooked
    · rw [same, deferPk_transfer_self]
      rfl
    · rw [deferPk_transfer_ne same]
  · intro raw cooked counter
    by_cases same : raw = cooked
    · rw [same, deferPk_transfer_self]
      exact fun runs => absurd rfl runs
    · rw [deferPk_transfer_ne same]
      intro _
      refine ⟨same, rfl, ?_⟩
      by_cases free : counter = 0
      · exact .inr ⟨if_pos free, trivial⟩
      · exact .inl ⟨if_neg free, free⟩

/-- What is left of a deferred release -/
def AsymCounter.release (counter : AsymCounter) : Nat := if counter.pressed then 0 else counter.time

theorem defer_asym (d : Nat) : (asym d).Defer AsymCounter.release d fun pressed => pressed = true := by
  refine ⟨idle_asym d, ?_, ?_, ?_, ?_, ?_⟩
  · rintro elapsed raw cooked ⟨pressed, time⟩
    rw [asym_update]
    cases pressed
    · rfl
    · exact (Nat.zero_sub elapsed).symm
  · rintro elapsed raw cooked ⟨pressed, time⟩ waits _
    rw [asym_update]
    refine if_neg ?_
    rintro ⟨⟨runs, expired⟩, rfl⟩
    rcases waits with zero | waits
    · exact runs zero
    · exact absurd expired (not_le.2 waits)
  · intro elapsed raw cooked counter
    rw [asym_update]
    exact (ite_eq_or_eq _ _ _).symm
  · rintro raw _ ⟨pressed, time⟩ rfl
    by_cases same : raw = true
    · rw [same, asym_transfer_self]
      rfl
    · by_cases free : time = 0
      · rw [Bool.not_eq_true] at same
        rw [same, free, asym_transfer_release]
      · rw [asym_transfer_running same free]
        rfl
  · rintro raw cooked ⟨pressed, time⟩
    by_cases same : raw = cooked
    · rw [same, asym_transfer_self]
      intro runs
      cases pressed <;> exact absurd rfl runs
    · by_cases free : time = 0
      · subst free
        revert same
        cases raw
        · cases cooked
          · exact fun same => absurd rfl same
          · rw [asym_transfer_release]
            exact fun same _ => ⟨same, rfl, .inr ⟨rfl, rfl⟩⟩
        · cases cooked
          · rw [asym_transfer_press]
            exact fun _ runs => absurd rfl runs
          · exact fun same => absurd rfl same
      · rw [asym_transfer_running same free]
        exact fun runs => ⟨same, rfl, .inl ⟨rfl, runs⟩⟩

section PerKey

variable {bodies : Bodies Bool K} {waits : K → Nat} {d : Nat} {defers : Bool → Prop} {elapsed : K}

/-- A counter of a deferred change that runs: the key has differed since it was started. -/
def Deferring (waits : K → Nat) (d : Nat) (defers : Bool → Prop) (x : World (perKey fast elapsed bodies : File rows cols))
    (past : List (Call rows cols)) (r : Fin rows) (k : Fin cols) : Prop :=
  defers (x.cooked r k) ∧ x.lastRaw r k ≠ x.cooked r k ∧ ∃ e during, e :: during <:+ past ∧
    (∀ c ∈ e :: during, c.raw r k ≠ x.cooked r k) ∧ Runs d e.now past x.state.lastTime (waits (x.state.counters (r, k)))

variable {x : World (perKey fast elapsed bodies : File rows cols)} {past : List (Call rows cols)} {c : Call rows cols} {r : Fin rows}
  {k : Fin cols}

/-- A counter that ran is taken to the next call. -/
theorem Deferring.extend (h : Deferring waits d defers x past r k) (differs : c.raw r k ≠ x.cooked r k) :
    ∃ e during, e :: during <:+ past ++ [c] ∧ (∀ c ∈ e :: during, c.raw r k ≠ x.cooked r k) ∧
      Runs d e.now past x.state.lastTime (waits (x.state.counters (r, k))) := by
  obtain ⟨-, -, e, during, suffix, seen, runs⟩ := h
  obtain ⟨suffix, seen⟩ := suffix_snoc (p := fun c => c.raw r k ≠ x.cooked r k) suffix seen differs
  exact ⟨e, during ++ [c], suffix, seen, runs⟩

/-- One call: a deferred change was observed, and counters that run were started when the key began to differ. -/
theorem perKey_defer (defer : bodies.Defer waits d defers)
    (h : ∀ r k, waits (x.state.counters (r, k)) ≠ 0 → Deferring waits d defers x past r k) (later : ∀ e ∈ past, e.now ≤ c.now) :
    (∀ r k, (x.step c).cooked r k ≠ x.cooked r k → defers (x.cooked r k) →
        Observed d (fun seen => seen r k ≠ x.cooked r k) (past ++ [c]) c.now) ∧
      ∀ r k, waits ((x.step c).state.counters (r, k)) ≠ 0 → Deferring waits d defers (x.step c) (past ++ [c]) r k := by
  constructor
  · intro r k changed deferred
    have turn := @Frame.debounce_cell fast _ _ _ _ bodies (fun key => c.raw key.1 key.2) (fun key => x.cooked key.1 key.2)
      (decide (c.raw ≠ x.lastRaw)) c.now x.state defer.toIdle (r, k)
    have moved : (bodies.update (x.state.elapsed c.now) (c.raw r k) (x.cooked r k) (x.state.counters (r, k))).cooked ≠
        x.cooked r k := by
      intro same
      dsimp only at turn
      rw [same] at turn
      rcases turn with ⟨-, -, cooked, -⟩ | ⟨cooked, -⟩
      · exact changed cooked
      · exact changed (cooked.trans (defer.transfer_cooked _ _ _ deferred))
    have differs : c.raw r k ≠ x.cooked r k := by
      rcases defer.update_raw (x.state.elapsed c.now) (c.raw r k) (x.cooked r k) (x.state.counters (r, k)) with same | raw
      · exact absurd same moved
      · exact raw ▸ moved
    have due : ¬ (waits (x.state.counters (r, k)) = 0 ∨ x.state.elapsed c.now < waits (x.state.counters (r, k))) :=
      fun waiting => moved (defer.update_cooked _ _ _ _ waiting deferred)
    obtain ⟨runs, expired⟩ := not_or.1 due
    obtain ⟨e, during, suffix, seen, started⟩ := (h r k runs).extend differs
    exact ⟨e, during, suffix, started.over later Frame.elapsed_le (not_lt.1 expired), seen⟩
  · intro r k runs
    have turn := @Frame.debounce_cell fast _ _ _ _ bodies (fun key => c.raw key.1 key.2) (fun key => x.cooked key.1 key.2)
      (decide (c.raw ≠ x.lastRaw)) c.now x.state defer.toIdle (r, k)
    have extended (waiting : x.state.elapsed c.now < waits (x.state.counters (r, k))) (differs : c.raw r k ≠ x.cooked r k)
        (read : (x.step c).state.lastTime = BitVec.ofNat fast c.now ∨
          (x.step c).state.lastTime = x.state.lastTime ∧ x.state.elapsed c.now = 0) :
        defers (x.cooked r k) ∧ ∃ e during, e :: during <:+ past ++ [c] ∧ (∀ c ∈ e :: during, c.raw r k ≠ x.cooked r k) ∧
          Runs d e.now (past ++ [c]) (x.step c).state.lastTime (waits (x.state.counters (r, k)) - x.state.elapsed c.now) := by
      have deferring := h r k (Nat.ne_of_gt (Nat.zero_lt_of_lt waiting))
      obtain ⟨e, during, suffix, seen, started⟩ := deferring.extend differs
      exact ⟨deferring.1, e, during, suffix, seen, started.step later Frame.elapsed_le waiting.le read⟩
    rcases turn with ⟨unchanged, -, cooked, counter, read⟩ | ⟨cooked, counter, read⟩
    · have left : waits ((x.step c).state.counters (r, k)) = waits (x.state.counters (r, k)) - x.state.elapsed c.now :=
        (congrArg waits counter).trans (defer.update_waits _ _ _ _)
      rw [left] at runs
      have waiting := Nat.lt_of_sub_ne_zero runs
      have deferring := h r k (Nat.ne_of_gt (Nat.zero_lt_of_lt waiting))
      have same : (x.step c).cooked r k = x.cooked r k := cooked.trans (defer.update_cooked _ _ _ _ (.inr waiting) deferring.1)
      have raw : c.raw = x.lastRaw := not_not.1 (of_decide_eq_false unchanged)
      have differs : c.raw r k ≠ x.cooked r k := raw ▸ deferring.2.1
      obtain ⟨deferred, e, during, suffix, seen, started⟩ := extended waiting differs read
      refine ⟨same ▸ deferred, same ▸ differs, e, during, suffix, ?_, left ▸ started⟩
      rw [same]
      exact seen
    · have left : waits ((x.step c).state.counters (r, k)) = _ := congrArg waits counter
      rw [left] at runs
      obtain ⟨differs, kept, ⟨same, running⟩ | ⟨fresh, deferred⟩⟩ := defer.transfer_waits _ _ _ runs
      · rw [defer.update_waits] at same running
        have waiting := Nat.lt_of_sub_ne_zero running
        have deferring := h r k (Nat.ne_of_gt (Nat.zero_lt_of_lt waiting))
        have mid := defer.update_cooked _ (c.raw r k) _ _ (.inr waiting) deferring.1
        have unmoved : (x.step c).cooked r k = x.cooked r k := (cooked.trans kept).trans mid
        have differs : c.raw r k ≠ x.cooked r k := mid ▸ differs
        obtain ⟨deferred, e, during, suffix, seen, started⟩ := extended waiting differs (.inl read)
        refine ⟨unmoved ▸ deferred, unmoved ▸ differs, e, during, suffix, ?_, ?_⟩
        · rw [unmoved]
          exact seen
        · rw [left, same]
          exact started
      · have moved : (x.step c).cooked r k = _ := cooked.trans kept
        refine ⟨moved ▸ deferred, moved ▸ differs, c, [], List.suffix_append past [c], ?_, ?_⟩
        · intro e mem
          rw [List.mem_singleton.1 mem]
          exact moved ▸ differs
        · rw [left, fresh]
          exact read ▸ Runs.start le_rfl

/-- A run of a file with a counter for each key -/
theorem perKey_observed (defer : bodies.Defer waits d defers) (off : waits elapsed = 0) (order : InOrder (past ++ [c])) (r : Fin rows)
    (k : Fin cols) :
    let x := past.foldl World.step (.start (perKey fast elapsed bodies))
    (x.step c).cooked r k ≠ x.cooked r k → defers (x.cooked r k) →
      Observed d (fun seen => seen r k ≠ x.cooked r k) (past ++ [c]) c.now := by
  have kept := World.kept (perKey fast elapsed bodies)
    (fun x past => ∀ (r : Fin rows) (k : Fin cols), waits (x.state.counters (r, k)) ≠ 0 → Deferring waits d defers x past r k)
    (fun r k runs => absurd off runs) (fun x past c h later => (perKey_defer defer h later).2) past order.before
  exact (perKey_defer defer kept order.later).1 r k

end PerKey

/-! ### The other files -/

section Other

variable {past : List (Call rows cols)} {c : Call rows cols}

theorem Observed.mono {d now : Nat} {p q : Matrix rows cols → Prop} {calls : List (Call rows cols)} (h : Observed d p calls now)
    (weaken : ∀ seen, p seen → q seen) : Observed d q calls now := by
  obtain ⟨e, during, suffix, le, seen⟩ := h
  exact ⟨e, during, suffix, le, fun c mem => weaken _ (seen c mem)⟩

/-- `sym_defer_g.c` waits since the matrix changed last. -/
def DeferG.Stable {file : Nat} (s : DeferG file) (lastRaw : Matrix rows cols) (past : List (Call rows cols)) : Prop :=
  s.debouncing = true → ∃ e during, e :: during <:+ past ∧ (∀ c ∈ e :: during, c.raw = lastRaw) ∧
    s.debouncingTime = BitVec.ofNat file e.now

theorem DeferG.debounce_stable {d : Nat} {s : DeferG fast} {lastRaw : Matrix rows cols} (cooked : Matrix rows cols) (h : s.Stable lastRaw past)
    (later : ∀ e ∈ past, e.now ≤ c.now) :
    let out := s.debounce d c.raw cooked (decide (c.raw ≠ lastRaw)) c.now
    out.1.Stable c.raw (past ++ [c]) ∧ (out.2.1 ≠ cooked → out.2.1 = c.raw ∧ Observed d (fun seen => seen = c.raw) (past ++ [c]) c.now) := by
  let t : DeferG fast := if decide (c.raw ≠ lastRaw) then ⟨true, BitVec.ofNat fast c.now⟩ else s
  have stable : t.debouncing = true → ∃ e during, e :: during <:+ past ++ [c] ∧ (∀ e' ∈ e :: during, e'.raw = c.raw) ∧
      t.debouncingTime = BitVec.ofNat fast e.now ∧ e.now ≤ c.now := by
    by_cases changed : c.raw = lastRaw
    · have same : t = s := if_neg (by simp [changed])
      rw [same]
      intro debouncing
      obtain ⟨e, during, suffix, seen, time⟩ := h debouncing
      have mem := suffix.subset List.mem_cons_self
      obtain ⟨suffix, seen⟩ := suffix_snoc (p := fun e => e.raw = lastRaw) suffix seen changed
      exact ⟨e, during ++ [c], suffix, changed ▸ seen, time, later e mem⟩
    · have fresh : t = ⟨true, BitVec.ofNat fast c.now⟩ := if_pos (by simp [changed])
      rw [fresh]
      intro _
      exact ⟨c, [], List.suffix_append past [c], fun e mem => by rw [List.mem_singleton.1 mem], rfl, le_rfl⟩
  intro out
  have answer : out = if t.debouncing && decide (d ≤ (BitVec.ofNat fast c.now - t.debouncingTime).toNat) then
      ({ t with debouncing := false }, c.raw, decide (cooked ≠ c.raw)) else (t, cooked, false) := rfl
  rw [answer]
  split
  case isTrue due =>
    rw [Bool.and_eq_true, decide_eq_true_iff] at due
    obtain ⟨debouncing, passed⟩ := due
    refine ⟨fun on => absurd on Bool.false_ne_true, fun _ => ⟨rfl, ?_⟩⟩
    obtain ⟨e, during, suffix, seen, time, le⟩ := stable debouncing
    rw [time] at passed
    have := elapsed_le (w := fast) le
    exact ⟨e, during, suffix, by omega, seen⟩
  case isFalse =>
    refine ⟨?_, fun changed => absurd rfl changed⟩
    intro debouncing
    obtain ⟨e, during, suffix, seen, time, -⟩ := stable debouncing
    exact ⟨e, during, suffix, seen, time⟩

/-- `sym_defer_pr.c` waits since the row changed last. -/
def DeferPr.Stable (DEBOUNCE : Nat) (s : DeferPr rows cols) (past : List (Call rows cols)) : Prop :=
  ∀ r, s.countdowns r ≠ 0 → DEBOUNCE % 2 ^ 8 ≠ 0 ∧ ∃ e during, e :: during <:+ past ∧ (∀ c ∈ e :: during, c.raw r = s.lastRaw r) ∧
    Runs (DEBOUNCE % 2 ^ 8) e.now past s.lastTime (s.countdowns r)

theorem DeferPr.debounce_stable {d : Nat} {s : DeferPr rows cols} (cooked : Matrix rows cols) (changed : Bool) (h : s.Stable d past)
    (later : ∀ e ∈ past, e.now ≤ c.now) :
    let out := s.debounce d c.raw cooked changed c.now
    out.1.Stable d (past ++ [c]) ∧ ∀ r, out.2.1 r ≠ cooked r → out.2.1 r = c.raw r ∧ d % 2 ^ 8 ≠ 0 ∧
      Observed (d % 2 ^ 8) (fun seen => seen r = c.raw r) (past ++ [c]) c.now := by
  have le : min (BitVec.ofNat 16 c.now - s.lastTime).toNat 255 ≤ (BitVec.ofNat 16 c.now - s.lastTime).toNat := min_le_left _ _
  unfold DeferPr.Stable DeferPr.debounce
  dsimp only
  generalize min (BitVec.ofNat 16 c.now - s.lastTime).toNat 255 = elapsed at le
  rw [← forall_and]
  intro r
  unfold DeferPr.row
  split
  case isTrue =>
    refine ⟨fun pos => ⟨pos, c, [], List.suffix_append past [c], ?_, Runs.start le_rfl⟩, fun changed => absurd rfl changed⟩
    intro e mem
    rw [List.mem_singleton.1 mem]
  case isFalse same =>
    rw [not_not] at same
    split
    case isTrue waits =>
      refine ⟨fun _ => ?_, fun changed => absurd rfl changed⟩
      obtain ⟨pos, e, during, suffix, seen, runs⟩ := h r (Nat.ne_of_gt (Nat.zero_lt_of_lt waits))
      obtain ⟨suffix, seen⟩ := suffix_snoc (p := fun e => e.raw r = s.lastRaw r) suffix seen same
      exact ⟨pos, e, during ++ [c], suffix, same ▸ seen, runs.step later le waits.le (.inl rfl)⟩
    case isFalse expired =>
      split
      case isTrue on =>
        refine ⟨fun off => absurd rfl off, fun _ => ?_⟩
        obtain ⟨pos, e, during, suffix, seen, runs⟩ := h r on
        obtain ⟨suffix, seen⟩ := suffix_snoc (p := fun e => e.raw r = s.lastRaw r) suffix seen same
        exact ⟨rfl, pos, e, during ++ [c], suffix, runs.over later le (not_lt.1 expired), same ▸ seen⟩
      case isFalse off => exact ⟨fun on => absurd on off, fun changed => absurd rfl changed⟩

/-- `none.c` changes a key in the call that sees it differ. -/
theorem none_filtered {a : Algorithm} {r : Fin rows} {k : Fin cols} (x : World (none : File rows cols))
    (changed : (x.step c).cooked r k ≠ x.cooked r k) : Observed 0 (a.Shows c.raw x.cooked r k) (past ++ [c]) c.now := by
  apply Observed.here
  refine ⟨changed, ?_⟩
  cases a
  case symDeferG => rfl
  case symDeferPr => rfl
  all_goals trivial

theorem deferG_filtered {d start : Nat} (order : InOrder (past ++ [c])) :
    Filtered .symDeferG (past.foldl World.step (.start (Algorithm.symDeferG.file fast start (d + 1)))) past c := by
  have kept := World.kept (symDeferG fast (d + 1)) (fun x past => DeferG.Stable x.state x.lastRaw past)
    (fun debouncing => absurd debouncing Bool.false_ne_true)
    (fun x past c h later => (DeferG.debounce_stable x.cooked h later).1) past order.before
  intro r k changed _
  have moved : (World.step _ c).cooked ≠ _ := fun same => changed (congrFun (congrFun same r) k)
  obtain ⟨raw, observed⟩ := (DeferG.debounce_stable _ kept order.later).2 moved
  refine observed.mono fun seen same => ⟨?_, same⟩
  rw [same, ← raw]
  exact changed

theorem deferPr_filtered {start DEBOUNCE : Nat} (order : InOrder (past ++ [c]))
    (fits : DEBOUNCE % 2 ^ 8 ≠ 0 → 0 < rows → 0 < cols → DEBOUNCE % 2 ^ 8 = DEBOUNCE) :
    Filtered .symDeferPr (past.foldl World.step (.start (Algorithm.symDeferPr.file fast start DEBOUNCE))) past c := by
  have kept := World.kept (symDeferPr start DEBOUNCE) (fun x past => DeferPr.Stable DEBOUNCE x.state past)
    (fun r on => absurd rfl on)
    (fun x past c h later => (DeferPr.debounce_stable x.cooked (decide (c.raw ≠ x.lastRaw)) h later).1)
    past order.before
  intro r k changed _
  have moved : (World.step _ c).cooked r ≠ _ := fun same => changed (congrFun same k)
  obtain ⟨raw, pos, observed⟩ := (DeferPr.debounce_stable _ true kept order.later).2 r moved
  rw [fits pos (Nat.zero_lt_of_lt r.isLt) (Nat.zero_lt_of_lt k.isLt)] at observed
  refine observed.mono fun seen same => ⟨?_, same⟩
  rw [same, ← raw]
  exact changed

theorem filtered_of_fits {a : Algorithm} {start DEBOUNCE : Nat} (order : InOrder (past ++ [c]))
    (fits : ¬ (a = .symDeferPr ∧ 0 < rows ∧ 0 < cols ∧ 256 < DEBOUNCE ∧ DEBOUNCE % 256 ≠ 0)) :
    Filtered a (past.foldl World.step (.start (a.file fast start DEBOUNCE))) past c := by
  match a, DEBOUNCE with
  | .none, _ => exact fun _ _ _ deferred => deferred.elim
  | .symEagerPr, _ => exact fun _ _ _ deferred => deferred.elim
  | .symEagerPk, _ => exact fun _ _ _ deferred => deferred.elim
  | .symDeferG, 0 => exact fun r k changed _ => none_filtered _ changed
  | .symDeferPk, 0 => exact fun r k changed _ => none_filtered _ changed
  | .asymEagerDeferPk, 0 => exact fun r k changed _ => none_filtered _ changed
  | .symDeferG, d + 1 => exact deferG_filtered order
  | .symDeferPr, DEBOUNCE =>
    refine deferPr_filtered order fun pos someRow someCol => ?_
    have : ¬ 256 < DEBOUNCE := fun large => fits ⟨rfl, someRow, someCol, large, pos⟩
    omega
  | .symDeferPk, d + 1 =>
    intro r k changed deferred
    exact (perKey_observed (defer_deferPk _) rfl order r k changed deferred).mono fun _ differs => ⟨differs, trivial⟩
  | .asymEagerDeferPk, d + 1 =>
    intro r k changed deferred
    exact (perKey_observed (defer_asym _) rfl order r k changed deferred).mono fun _ differs => ⟨differs, trivial⟩

/-- All keys are down. -/
def down (rows cols now : Nat) : Call rows cols := ⟨fun _ _ => true, now⟩

/-- The keys are down, and then still so when the countdown, which holds less than `DEBOUNCE`, has run out. -/
theorem deferPr_early {start DEBOUNCE : Nat} (r : Fin rows) (k : Fin cols) (large : 256 < DEBOUNCE) (pos : DEBOUNCE % 256 ≠ 0) :
    ¬ Filtered .symDeferPr ([down rows cols start].foldl World.step (.start (Algorithm.symDeferPr.file fast start DEBOUNCE)))
      [down rows cols start] (down rows cols (start + DEBOUNCE % 256)) := by
  have pressed : (fun _ => true) ≠ (fun _ : Fin cols => false) := fun same => Bool.noConfusion (congrFun same k)
  have small : DEBOUNCE % 256 < 256 := Nat.mod_lt _ (by decide)
  have elapsed : min (BitVec.ofNat 16 (start + DEBOUNCE % 256) - BitVec.ofNat 16 start).toNat 255 = DEBOUNCE % 256 := by
    rw [elapsed_eq (Nat.le_add_right _ _) (by omega), Nat.add_sub_cancel_left]
    exact min_eq_left (by omega)
  have first : DeferPr.row DEBOUNCE (min (BitVec.ofNat 16 start - BitVec.ofNat 16 start).toNat 255) (fun _ => true)
      (fun _ : Fin cols => false) (fun _ => false) 0 = (DEBOUNCE % 256, fun _ => false, false) := if_pos pressed
  have second : DeferPr.row DEBOUNCE (DEBOUNCE % 256) (fun _ => true) (fun _ : Fin cols => true) (fun _ => false) (DEBOUNCE % 256) =
      (0, fun _ => true, decide ((fun _ => false) ≠ fun _ : Fin cols => true)) := by
    unfold DeferPr.row
    rw [if_neg (not_not.2 rfl), if_neg (lt_irrefl _), if_pos pos]
  have opened : World.step (.start (Algorithm.symDeferPr.file fast start DEBOUNCE)) (down rows cols start) =
      ⟨(⟨BitVec.ofNat 16 start, fun _ => DEBOUNCE % 256, fun _ _ => true⟩ : DeferPr rows cols), fun _ _ => false, fun _ _ => true⟩ := by
    refine congrArg₂ (fun (countdowns : Fin rows → Nat) (cooked : Matrix rows cols) =>
      (⟨(⟨BitVec.ofNat 16 start, countdowns, fun _ _ => true⟩ : DeferPr rows cols), cooked, fun _ _ => true⟩ :
        World (Algorithm.symDeferPr.file fast start DEBOUNCE : File rows cols))) ?_ ?_
    · exact funext fun _ => congrArg Prod.fst first
    · exact funext fun _ => congrArg (fun out => out.2.1) first
  intro filtered
  rw [List.foldl_cons, List.foldl_nil, opened] at filtered
  have closed : (DeferPr.row DEBOUNCE (min (BitVec.ofNat 16 (start + DEBOUNCE % 256) - BitVec.ofNat 16 start).toNat 255) (fun _ => true)
      (fun _ : Fin cols => true) (fun _ => false) (DEBOUNCE % 256)).2.1 k ≠ false := by
    rw [elapsed, second]
    exact Bool.noConfusion
  obtain ⟨e, during, suffix, le, -⟩ := filtered r k closed trivial
  have mem := suffix.subset List.mem_cons_self
  have early : start ≤ e.now := by
    simp [down] at mem
    rcases mem with rfl | rfl
    · exact le_rfl
    · exact Nat.le_add_right _ _
  have window : e.now + DEBOUNCE ≤ start + DEBOUNCE % 256 := le
  omega

end Other

/-- **Bounces**: in every run of every file, a deferred change was observed in all calls of the `DEBOUNCE` ms before it, unless the
file is `sym_defer_pr.c` and its countdown, a byte, does not hold `DEBOUNCE`. -/
theorem bounces_filtered_iff (a : Algorithm) (fast start DEBOUNCE : Nat) :
    (∀ (past : List (Call rows cols)) c, InOrder (past ++ [c]) →
      Filtered a (past.foldl World.step (.start (a.file fast start DEBOUNCE))) past c) ↔
      ¬ (a = .symDeferPr ∧ 0 < rows ∧ 0 < cols ∧ 256 < DEBOUNCE ∧ DEBOUNCE % 256 ≠ 0) := by
  constructor
  · rintro filtered ⟨rfl, someRow, someCol, large, pos⟩
    exact deferPr_early ⟨0, someRow⟩ ⟨0, someCol⟩ large pos (filtered _ _ (by simp [InOrder, down]))
  · exact fun fits past c order => filtered_of_fits order fits

/-- With 300 ms, a key that was pressed 44 ms before is pressed in the cooked matrix. -/
theorem deferPr_early_300 :
    InOrder ([down 1 1 0] ++ [down 1 1 44]) ∧
      ¬ Filtered .symDeferPr ([down 1 1 0].foldl World.step (.start (Algorithm.symDeferPr.file 32 0 300))) [down 1 1 0] (down 1 1 44) :=
  ⟨by simp [InOrder, down], @deferPr_early 1 1 32 0 300 0 0 (by decide) (by decide)⟩

end QmkFirmware.Debounce
