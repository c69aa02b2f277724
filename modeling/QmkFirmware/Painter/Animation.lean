import QmkFirmware.Lib.Handles
import QmkFirmware.Lib.Run
import QmkFirmware.Deferred.Schedule

/-!
# Animation slots

The animations of `qp_draw_image.c`. An animation has a slot, which is taken as long as it has
a device, and an executor in a table of deferred executors, which runs the next frame. What
drawing a frame comes to, on whatever display, is part of what happens.
-/

namespace QmkFirmware.Painter.Animation
open Lib Deferred

variable {n : Nat} {D : Type}

/-- `painter_image_desc_t` -/
structure Image where
  width : BitVec 16
  height : BitVec 16
  frameCount : BitVec 16
  deriving DecidableEq

/-- The `hsv888` of a `qp_pixel_t` -/
structure Hsv where
  h : BitVec 8
  s : BitVec 8
  v : BitVec 8
  deriving DecidableEq

/-- `animation_state_t`; `none` is `NULL`. -/
structure AnimationState (D : Type) where
  device : Option D
  x : BitVec 16
  y : BitVec 16
  image : Option Image
  fgHsv888 : Hsv
  bgHsv888 : Hsv
  frameNumber : BitVec 16
  deferToken : BitVec 8

/-- `animation_callback`, the only callback in the table -/
inductive Callback where
  | animation

/-- `animation_states`, `animation_executors` and the timer -/
structure State (n : Nat) (D : Type) where
  states : Fin n → AnimationState D
  executors : Deferred.State n Callback (Fin n)
  timer : BitVec 32

/-- Everything is zero at the start. -/
def initial : State n D := ⟨fun _ => ⟨none, 0, 0, none, ⟨0, 0, 0⟩, ⟨0, 0, 0⟩, 0, 0⟩, Deferred.initial, 0⟩

/-- `qp_render_animation_state`, given the delay of the frame if it is drawn -/
def renderAnimationState (drawn : Option (BitVec 16)) (state : AnimationState D) : AnimationState D :=
  match drawn with
  | none => state
  | some _ =>
    let frameNumber := state.frameNumber + 1
    { state with frameNumber := if (state.image.map Image.frameCount).getD 0 ≤ frameNumber then 0 else frameNumber }

/-- `animation_callback` -/
def animationCallback (drawn : Option (BitVec 16)) (state : AnimationState D) : BitVec 32 × AnimationState D :=
  match drawn with
  | none => (0, { renderAnimationState drawn state with device := none })
  | some delay => (delay.setWidth 32, renderAnimationState drawn state)

namespace State

/-- `qp_animate_recolor` -/
def animateRecolor (device : D) (x y : BitVec 16) (image : Image) (fg bg : Hsv) (drawn : Option (BitVec 16)) (s : State n D) :
    State n D × BitVec 8 :=
  match (List.finRange n).find? fun i => (s.states i).device.isNone with
  | none => (s, 0)
  | some i =>
    let state := renderAnimationState drawn
      { s.states i with device := some device, x, y, image := some image, fgHsv888 := fg, bgHsv888 := bg, frameNumber := 0 }
    match drawn with
    | none => ({ s with states := Function.update s.states i { state with device := none } }, 0)
    | some delay =>
      let (executors, deferToken) := s.executors.deferExec (delay.setWidth 32) (some .animation) (some i) s.timer
      let device := if deferToken = 0 then none else state.device
      ({ s with states := Function.update s.states i { state with deferToken, device }, executors }, deferToken)

/-- `qp_stop_animation` -/
def stopAnimation (animToken : BitVec 8) (s : State n D) : State n D :=
  match (List.finRange n).find? fun i => (s.states i).deferToken == animToken with
  | none => s
  | some i =>
    { s with
      executors := (s.executors.cancelDeferredExec animToken).1
      states := Function.update s.states i { s.states i with device := none } }

/-- `deferred_exec_advanced_task` from the drawing of the frame by the callback that runs to the next one -/
def callbackDrew (drawn : Option (BitVec 16)) (s : State n D) : State n D :=
  match s.executors.running with
  | none => s
  | some (now, i) =>
    match (s.executors.table i).cbArg with
    | none => s
    | some slot =>
      let (delay, state) := animationCallback drawn (s.states slot)
      { s with states := Function.update s.states slot state, executors := s.executors.callbackReturned delay now i }

end State

/-- What happens: time passes, a token is allocated for another table, an animation is started or stopped, the animations are
ticked, or the callback that runs has drawn its frame, or not. -/
inductive Event (D : Type) where
  | wait (ms : BitVec 32)
  | elsewhere (token : BitVec 8)
  | animate (device : D) (x y : BitVec 16) (image : Image) (fg bg : Hsv) (drawn : Option (BitVec 16))
  | stop (animToken : BitVec 8)
  | tick
  | drew (drawn : Option (BitVec 16))

/-- An event. Nothing else is called while a callback draws. -/
def State.step (s : State n D) : Event D → State n D
  | .wait ms => { s with timer := s.timer + ms }
  | .elsewhere token => { s with executors := { s.executors with currentToken := token } }
  | .animate device x y image fg bg drawn =>
    if s.executors.running.isSome then s else (s.animateRecolor device x y image fg bg drawn).1
  | .stop animToken => if s.executors.running.isSome then s else s.stopAnimation animToken
  | .tick => if s.executors.running.isSome then s else { s with executors := s.executors.deferredExecTask s.timer }
  | .drew drawn => s.callbackDrew drawn

/-! ## Slots and executors -/

namespace State

def Taken (s : State n D) (slot : Fin n) : Prop := (s.states slot).device.isSome

def token (s : State n D) (i : Fin n) : BitVec 8 := (s.executors.table i).token

def owner (s : State n D) (i : Fin n) : Option (Fin n) := (s.executors.table i).cbArg

def handle (s : State n D) (slot : Fin n) : BitVec 8 := (s.states slot).deferToken

instance (s : State n D) (slot : Fin n) : Decidable (s.Taken slot) := inferInstanceAs (Decidable (_ = true))

/-- The animation of a slot is stopped and no other one: its executor is gone, and its slot is free. -/
def Stops (slot : Fin n) (s s' : State n D) : Prop :=
  ¬ s'.Taken slot ∧ (∀ other, other ≠ slot → s'.states other = s.states other) ∧
    ∀ i, s.token i ≠ 0 → s'.executors.table i = if s.owner i = some slot then .clear else s.executors.table i

/-- Slots and executors belong together after the step, and a running animation is stopped by its token. -/
def Right (s : State n D) (e : Event D) : Prop :=
  Served (s.step e).Taken (s.step e).token (s.step e).owner ∧
    match e with
    | .stop animToken => s.executors.running = none →
      ∀ slot, s.Taken slot → s.handle slot = animToken → Stops slot s (s.step e)
    | _ => True

/-- No callback draws a frame whose delay is 0. -/
def Fine (s : State n D) : Event D → Prop
  | .drew drawn => s.executors.running.isSome → drawn ≠ some 0
  | _ => True

/-- Every executor leads to its slot and back, no slot before that of an animation remembers its token (they were all taken when
it was started), and the executor whose callback runs is in use. -/
structure Sound (s : State n D) : Prop where
  handles : Handles s.Taken s.handle s.token s.owner
  earlier : ∀ slot, s.Taken slot → ∀ other < slot, s.handle other ≠ s.handle slot
  running : ∀ now i, s.executors.running = some (now, i) → s.token i ≠ 0

theorem sound_initial : Sound (initial : State n D) where
  handles := by
    refine ⟨⟨fun slot => ⟨fun taken => ?_, fun ⟨i, on, _⟩ => absurd rfl on⟩, fun i on => absurd rfl on, fun i _ on => absurd rfl on⟩,
      fun i _ on => absurd rfl on, fun i _ on => absurd rfl on⟩
    exact absurd taken Bool.false_ne_true
  earlier _ taken := absurd taken Bool.false_ne_true
  running _ _ running := absurd running (Option.some_ne_none _).symm

variable {s s' : State n D} {slot i : Fin n} {state : AnimationState D} {entry : Executor Callback (Fin n)}

theorem taken_update (new : s'.states = Function.update s.states slot state) :
    s'.Taken = fun other => if other = slot then state.device.isSome = true else s.Taken other := by
  funext other
  unfold Taken
  rw [new]
  split
  next here => rw [here, Function.update_self]
  next there => rw [Function.update_of_ne there]

theorem handle_update (new : s'.states = Function.update s.states slot state) :
    s'.handle = Function.update s.handle slot state.deferToken := by
  funext other
  unfold handle
  rw [new]
  exact Function.apply_update (fun _ a => a.deferToken) s.states slot state other

theorem token_update (new : s'.executors.table = Function.update s.executors.table i entry) :
    s'.token = Function.update s.token i entry.token := by
  funext other
  unfold token
  rw [new]
  exact Function.apply_update (fun _ e => e.token) s.executors.table i entry other

theorem owner_update (new : s'.executors.table = Function.update s.executors.table i entry) :
    s'.owner = Function.update s.owner i entry.cbArg := by
  funext other
  unfold owner
  rw [new]
  exact Function.apply_update (fun _ e => e.cbArg) s.executors.table i entry other

theorem token_same (same : s'.executors.table = s.executors.table) : s'.token = s.token := by
  unfold token
  rw [same]

theorem owner_same (same : s'.executors.table = s.executors.table) : s'.owner = s.owner := by
  unfold owner
  rw [same]

/-- The slot whose animation a token names, and its executor -/
theorem Sound.executor (sound : Sound s) (taken : s.Taken slot) :
    ∃ i, s.token i = s.handle slot ∧ s.token i ≠ 0 ∧ s.owner i = some slot ∧ ∀ j, s.token j = s.handle slot → j = i := by
  obtain ⟨i, on, own⟩ := (sound.handles.served.serves slot).1 taken
  have named := sound.handles.handle i slot on own
  exact ⟨i, named.symm, on, own, fun j same => (sound.handles.distinct i j on (named.symm.trans same.symm)).symm⟩

/-- A slot that is not taken keeps its token, or loses it, and stays free. -/
theorem Sound.vacant (sound : Sound s) (free : ¬ s.Taken slot) (new : s'.states = Function.update s.states slot state)
    (none : state.device = none) (kept : state.deferToken = s.handle slot ∨ state.deferToken = 0)
    (table : s'.executors.table = s.executors.table) (running : s'.executors.running = s.executors.running) : Sound s' := by
  have taken : s'.Taken = s.Taken := by
    rw [taken_update new]
    funext other
    split
    next here =>
      rw [here, none]
      exact propext (iff_of_false Bool.false_ne_true free)
    next => rfl
  refine ⟨?_, ?_, ?_⟩
  · rw [taken, handle_update new, token_same table, owner_same table]
    exact sound.handles.forget free state.deferToken
  · rw [taken, handle_update new]
    intro later taken' other less
    have ne : later ≠ slot := fun same => free (same ▸ taken')
    rw [Function.update_of_ne ne]
    by_cases here : other = slot
    · rw [here] at less ⊢
      rw [Function.update_self]
      rcases kept with same | zero
      · rw [same]
        exact sound.earlier later taken' slot less
      · obtain ⟨i, named, on, -⟩ := sound.executor taken'
        rw [zero, ← named]
        exact on.symm
    · rw [Function.update_of_ne here]
      exact sound.earlier later taken' other less
  · rw [running, token_same table]
    exact sound.running

/-- A free slot and a free entry are taken together. -/
theorem Sound.taken (sound : Sound s) (free : ¬ s.Taken slot) (first : ∀ other < slot, s.Taken other) (unused : s.token i = 0)
    (new : s'.states = Function.update s.states slot state) (some : state.device.isSome = true)
    (table : s'.executors.table = Function.update s.executors.table i entry) (named : entry.token = state.deferToken)
    (owned : entry.cbArg = Option.some slot) (ne : state.deferToken ≠ 0) (fresh : ∀ j, s.token j ≠ state.deferToken)
    (running : s'.executors.running = s.executors.running) : Sound s' := by
  have taken : s'.Taken = fun other => other = slot ∨ s.Taken other := by
    rw [taken_update new]
    funext other
    split
    next here => exact propext (iff_of_true some (Or.inl here))
    next there => exact propext (or_iff_right there).symm
  have apart : ∀ other, s.Taken other → s.handle other ≠ state.deferToken := by
    intro other before
    obtain ⟨j, same, -⟩ := sound.executor before
    rw [← same]
    exact fresh j
  refine ⟨?_, ?_, ?_⟩
  · rw [taken, handle_update new, token_update table, owner_update table, named, owned]
    exact sound.handles.take free unused ne fresh
  · rw [taken, handle_update new]
    intro later taken' other less
    by_cases here : later = slot
    · rw [here] at less ⊢
      rw [Function.update_self, Function.update_of_ne less.ne]
      exact apart other (first other less)
    · rw [Function.update_of_ne here]
      have before := taken'.resolve_left here
      by_cases there : other = slot
      · rw [there, Function.update_self]
        exact (apart later before).symm
      · rw [Function.update_of_ne there]
        exact sound.earlier later before other less
  · intro now j on
    have before := sound.running now j (running.symm.trans on)
    have there : j ≠ i := by
      rintro rfl
      exact before unused
    rw [token_update table, Function.update_of_ne there]
    exact before

/-- A slot and its executor are given back together. -/
theorem Sound.givenBack (sound : Sound s) (on : s.token i ≠ 0) (own : s.owner i = some slot)
    (new : s'.states = Function.update s.states slot state) (none : state.device = none)
    (named : state.deferToken = s.handle slot) (table : s'.executors.table = Function.update s.executors.table i .clear)
    (running : ∀ now j, s'.executors.running = some (now, j) → s'.token j ≠ 0) : Sound s' := by
  have taken : s'.Taken = fun other => other ≠ slot ∧ s.Taken other := by
    rw [taken_update new]
    funext other
    split
    next here =>
      rw [none]
      exact propext (iff_of_false Bool.false_ne_true fun both => both.1 here)
    next there => exact propext (and_iff_right there).symm
  refine ⟨?_, ?_, running⟩
  · rw [taken, handle_update new, named, Function.update_eq_self, token_update table, owner_update table]
    exact sound.handles.giveBack on own Option.none
  · rw [taken, handle_update new, named, Function.update_eq_self]
    exact fun later before => sound.earlier later before.2

theorem first_of_find {p : Fin n → Bool} (found : (List.finRange n).find? p = some i) :
    p i = true ∧ ∀ j < i, p j = false := by
  obtain ⟨here, k, bound, same, before⟩ := List.find?_eq_some_iff_getElem.1 found
  refine ⟨here, fun j less => ?_⟩
  rw [List.getElem_finRange] at same
  have index : k = i.val := by
    rw [← same]
    rfl
  have earlier := before j.val (by rw [index]; exact less)
  rw [List.getElem_finRange] at earlier
  simpa using earlier

/-- `qp_animate_recolor` takes a slot together with an executor, or neither. -/
theorem Sound.animateRecolor (sound : Sound s) (device : D) (x y : BitVec 16) (image : Image) (fg bg : Hsv)
    (drawn : Option (BitVec 16)) : Sound (s.animateRecolor device x y image fg bg drawn).1 := by
  unfold State.animateRecolor
  split
  next => exact sound
  next slot found =>
    obtain ⟨none, before⟩ := first_of_find found
    have free : ¬ s.Taken slot := by
      unfold Taken
      rw [Option.isNone_iff_eq_none.1 none]
      exact Bool.false_ne_true
    have first : ∀ other < slot, s.Taken other := fun other less => Option.isNone_eq_false_iff.1 (before other less)
    cases drawn with
    | none => exact sound.vacant free rfl rfl (Or.inl rfl) rfl rfl
    | some delay =>
      obtain ⟨running, cases⟩ := @deferExec_cases n Callback (Fin n) s.executors (delay.setWidth 32) s.timer
        (some .animation) (some slot)
      rcases cases with ⟨refused, table⟩ | ⟨ne, i, unused, fresh, table⟩
      · exact sound.vacant free rfl (if_pos refused) (Or.inr refused) table running
      · refine sound.taken free first unused rfl ?_ table rfl rfl ne fresh running
        rw [if_neg ne]
        rfl

/-! ## Stopping -/

variable {animToken : BitVec 8}

/-- The executor of the animation that a token names is cancelled. -/
theorem Sound.cancelled (sound : Sound s) (taken : s.Taken slot) (named : s.handle slot = animToken) :
    ∃ i, s.token i ≠ 0 ∧ s.owner i = some slot ∧
      (s.executors.cancelDeferredExec animToken).1.table = Function.update s.executors.table i .clear := by
  obtain ⟨i, same, on, own, only⟩ := sound.executor taken
  rw [named] at same only
  refine ⟨i, on, own, ?_⟩
  obtain ⟨-, cases⟩ := @cancelDeferredExec_cases n Callback (Fin n) s.executors animToken
  rcases cases with ⟨none, -⟩ | ⟨-, j, eq, table⟩
  · rcases none with zero | none
    · exact absurd (same.trans zero) on
    · exact absurd same (none i)
  · rw [table, only j eq]

/-- An animation is stopped by its token. -/
theorem stopAnimation_right (sound : Sound s) (idle : s.executors.running = none) :
    Sound (s.stopAnimation animToken) ∧
      ∀ slot, s.Taken slot → s.handle slot = animToken → Stops slot s (s.stopAnimation animToken) := by
  have still := (@cancelDeferredExec_cases n Callback (Fin n) s.executors animToken).1
  unfold stopAnimation
  split
  next none =>
    refine ⟨sound, fun slot _ named => ?_⟩
    have other := List.find?_eq_none.1 none slot (List.mem_finRange slot)
    exact absurd (beq_iff_eq.2 named) other
  next first found =>
    obtain ⟨same, before⟩ := first_of_find found
    have named : s.handle first = animToken := beq_iff_eq.1 same
    -- no other slot can be the one of a running animation with this token
    have only : ∀ slot, s.Taken slot → s.handle slot = animToken → slot = first := by
      intro slot taken own
      rcases lt_trichotomy slot first with less | same | more
      · exact absurd own (beq_eq_false_iff_ne.1 (before slot less))
      · exact same
      · exact absurd (named.trans own.symm) (sound.earlier slot taken first more)
    by_cases taken : s.Taken first
    · obtain ⟨i, on, own, table⟩ := sound.cancelled taken named
      refine ⟨sound.givenBack on own rfl rfl rfl table fun now j running => ?_, fun slot taken' own' => ?_⟩
      · exact absurd (idle.symm.trans (still.symm.trans running)) (Option.some_ne_none _).symm
      · rw [only slot taken' own']
        refine ⟨?_, fun other there => Function.update_of_ne there _ _, fun j on' => ?_⟩
        · unfold Taken
          dsimp only
          rw [Function.update_self]
          exact Bool.false_ne_true
        · dsimp only
          rw [table]
          by_cases here : j = i
          · rw [here, Function.update_self, if_pos own]
          · rw [Function.update_of_ne here, if_neg fun own' => here (sound.handles.served.single j i on' on (own'.trans own.symm))]
    · have none : ∀ slot, s.Taken slot → s.handle slot ≠ animToken := by
        intro slot taken' own
        rw [only slot taken' own] at taken'
        exact taken taken'
      refine ⟨?_, fun slot taken' own => absurd own (none slot taken')⟩
      have table : (s.executors.cancelDeferredExec animToken).1.table = s.executors.table := by
        obtain ⟨-, cases⟩ := @cancelDeferredExec_cases n Callback (Fin n) s.executors animToken
        rcases cases with ⟨-, table⟩ | ⟨ne, j, eq, -⟩
        · exact table
        · have on : s.token j ≠ 0 := fun zero => ne (eq.symm.trans zero)
          obtain ⟨slot, own, taken'⟩ := sound.handles.served.owned j on
          exact absurd ((sound.handles.handle j slot on own).trans eq) (none slot taken')
      exact sound.vacant taken rfl rfl (Or.inl rfl) table still

/-! ## Drawing -/

theorem callbackReturned_cases {executors : Deferred.State n Callback (Fin n)} {delay now : BitVec 32} :
    (executors.callbackReturned delay now i).table = Function.update executors.table i
        (if 0 < delay then { executors.table i with triggerTime := (executors.table i).triggerTime + delay } else .clear) ∧
      ∀ now' j, (executors.callbackReturned delay now i).running = some (now', j) →
        ((executors.callbackReturned delay now i).table j).token ≠ 0 := by
  refine ⟨rfl, fun now' j running => ?_⟩
  unfold State.callbackReturned at running ⊢
  have scanned := fun table => @scan_cases n Callback (Fin n) { executors with table } now (i + 1)
  obtain ⟨-, none | ⟨k, at_, on, -⟩⟩ := scanned (Function.update executors.table i
    (if 0 < delay then { executors.table i with triggerTime := (executors.table i).triggerTime + delay } else .clear))
  · exact absurd (none.symm.trans running) (Option.some_ne_none _).symm
  · have same := Option.some.inj (at_.symm.trans running)
    rw [← (Prod.mk.inj same).2]
    exact on

theorem Sound.same (sound : Sound s) (taken : s'.Taken = s.Taken) (handle : s'.handle = s.handle) (token : s'.token = s.token)
    (owner : s'.owner = s.owner) (running : ∀ now i, s'.executors.running = some (now, i) → s'.token i ≠ 0) : Sound s' := by
  refine ⟨?_, ?_, running⟩
  · rw [taken, handle, token, owner]
    exact sound.handles
  · rw [taken, handle]
    exact sound.earlier

/-- A callback gives slot and executor back together, or keeps both, unless the frame has no delay. -/
theorem callbackDrew_right (sound : Sound s) {drawn : Option (BitVec 16)}
    (fine : s.executors.running.isSome → drawn ≠ some 0) : Sound (s.callbackDrew drawn) := by
  unfold callbackDrew
  split
  next => exact sound
  next now i running =>
    have on := sound.running now i running
    obtain ⟨slot, own, taken⟩ := sound.handles.served.owned i on
    have arg : (s.executors.table i).cbArg = some slot := own
    rw [arg]
    dsimp only
    cases drawn with
    | none =>
      obtain ⟨table, next⟩ := @callbackReturned_cases n i s.executors 0 now
      exact sound.givenBack on own rfl rfl rfl table next
    | some delay =>
      have pos : 0 < delay.setWidth 32 := by
        have ne : delay ≠ 0 := fun zero => fine (by rw [running]; rfl) (by rw [zero])
        bv_omega
      obtain ⟨table, next⟩ := @callbackReturned_cases n i s.executors (delay.setWidth 32) now
      rw [if_pos pos] at table
      have token : (s.executors.table i).token = s.token i := rfl
      have owner : (s.executors.table i).cbArg = s.owner i := rfl
      refine sound.same ?_ ?_ ?_ ?_ next
      · rw [taken_update rfl]
        funext other
        split
        next here =>
          rw [here]
          exact rfl
        next => rfl
      · have handle : (animationCallback (some delay) (s.states slot)).2.deferToken = s.handle slot := rfl
        rw [handle_update rfl, handle, Function.update_eq_self]
      · rw [token_update table, token, Function.update_eq_self]
      · rw [owner_update table, owner, Function.update_eq_self]

/-- A frame without a delay ends the executor and leaves the slot taken. -/
theorem callbackDrew_wrong (sound : Sound s) (running : s.executors.running.isSome) :
    ¬ Served (s.callbackDrew (some 0)).Taken (s.callbackDrew (some 0)).token (s.callbackDrew (some 0)).owner := by
  obtain ⟨⟨now, i⟩, at_⟩ := Option.isSome_iff_exists.1 running
  have on := sound.running now i at_
  obtain ⟨slot, own, taken⟩ := sound.handles.served.owned i on
  have arg : (s.executors.table i).cbArg = some slot := own
  unfold callbackDrew
  rw [at_]
  dsimp only
  rw [arg]
  dsimp only
  obtain ⟨table, -⟩ := @callbackReturned_cases n i s.executors 0 now
  rw [token_update table, owner_update table]
  apply sound.handles.leaked on own
  unfold Taken
  dsimp only
  rw [Function.update_self]
  exact taken

/-! ## Runs -/

theorem sound_tick (sound : Sound s) :
    Sound { s with executors := s.executors.deferredExecTask s.timer } := by
  unfold Deferred.State.deferredExecTask
  split
  next =>
    obtain ⟨table, none | ⟨k, at_, on, -⟩⟩ := @scan_cases n Callback (Fin n)
      { s.executors with lastExecutionTime := s.timer } s.timer 0
    · exact sound.same rfl rfl (token_same table) (owner_same table) fun now i running => absurd (none.symm.trans running) (Option.some_ne_none _).symm
    · refine sound.same rfl rfl (token_same table) (owner_same table) fun now i running => ?_
      rw [← (Prod.mk.inj (Option.some.inj (at_.symm.trans running))).2]
      exact on
  next => exact sound

/-- What one step does -/
theorem step_right (sound : Sound s) (e : Event D) (fine : s.Fine e) : Sound (s.step e) ∧ s.Right e := by
  have whole : ∀ {s' : State n D}, Sound s' → Served s'.Taken s'.token s'.owner := fun sound' => sound'.handles.served
  cases e with
  | wait ms =>
    have next : Sound (s.step (.wait ms)) := sound.same rfl rfl rfl rfl sound.running
    exact ⟨next, whole next, trivial⟩
  | elsewhere token =>
    have next : Sound (s.step (.elsewhere token)) := sound.same rfl rfl rfl rfl sound.running
    exact ⟨next, whole next, trivial⟩
  | animate device x y image fg bg drawn =>
    have next : Sound (s.step (.animate device x y image fg bg drawn)) := by
      change Sound (if _ then _ else _)
      split
      next => exact sound
      next => exact sound.animateRecolor device x y image fg bg drawn
    exact ⟨next, whole next, trivial⟩
  | stop animToken =>
    cases idle : s.executors.running with
    | none =>
      have now : s.step (.stop animToken) = s.stopAnimation animToken := if_neg (by rw [idle]; exact Bool.false_ne_true)
      have right : Sound (s.stopAnimation animToken) ∧
          ∀ slot, s.Taken slot → s.handle slot = animToken → Stops slot s (s.stopAnimation animToken) :=
        stopAnimation_right sound idle
      obtain ⟨next, stops⟩ := right
      unfold Right
      rw [now]
      exact ⟨next, whole next, fun _ => stops⟩
    | some scan =>
      have now : s.step (.stop animToken) = s := if_pos (by rw [idle]; rfl)
      unfold Right
      rw [now]
      exact ⟨sound, whole sound, fun none => absurd (idle.symm.trans none) (Option.some_ne_none _)⟩
  | tick =>
    have next : Sound (s.step .tick) := by
      change Sound (if _ then _ else _)
      split
      next => exact sound
      next => exact sound_tick sound
    exact ⟨next, whole next, trivial⟩
  | drew drawn =>
    have next : Sound (s.step (.drew drawn)) := callbackDrew_right sound fine
    exact ⟨next, whole next, trivial⟩

theorem right_iff_fine (sound : Sound s) (e : Event D) : s.Right e ↔ s.Fine e := by
  refine ⟨fun right => ?_, fun fine => (step_right sound e fine).2⟩
  by_contra wrong
  cases e with
  | wait | elsewhere | animate | stop | tick => exact wrong trivial
  | drew drawn =>
    unfold Fine at wrong
    push Not at wrong
    obtain ⟨running, rfl⟩ := wrong
    exact callbackDrew_wrong sound running right.1

/-- Slots and executors belong together, and animations are stopped by their tokens, all along a run exactly if no callback draws a
frame without a delay. -/
theorem slots_served_iff (events : List (Event D)) :
    Along step Right (initial : State n D) events ↔ Along step Fine (initial : State n D) events := by
  apply Along.congr Sound
  · exact fun s e sound => right_iff_fine sound e
  · exact fun s e sound right => (step_right sound e ((right_iff_fine sound e).1 right)).1
  · exact sound_initial

/-- A frame that is shown for 1 ms, and one whose delay is 0 -/
def twoFrames : List (Event Unit) :=
  [.animate () 0 0 ⟨8, 8, 2⟩ ⟨0, 0, 255⟩ ⟨0, 0, 0⟩ (some 1), .wait 1, .tick, .drew (some 0)]

/-- The second frame ends the executor, and the slot stays taken. -/
theorem slot_leaked : ¬ Along step Right (initial : State 1 Unit) twoFrames := by
  intro run
  have served : Served (twoFrames.foldl step initial).Taken (twoFrames.foldl step initial).token
      (twoFrames.foldl step initial).owner := run.2.2.2.1.1
  have taken : (twoFrames.foldl step (initial : State 1 Unit)).Taken 0 := by decide
  have unused : ∀ i, (twoFrames.foldl step (initial : State 1 Unit)).token i = 0 := by decide
  obtain ⟨i, on, -⟩ := (served.serves 0).1 taken
  exact on (unused i)

end State

end QmkFirmware.Painter.Animation
