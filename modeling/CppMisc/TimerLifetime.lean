import CppMisc.Runs
import CppMisc.TimerModel

/-! A `Timer` and the callbacks that are queued for it. `DeleteTimerQueueTimer(NULL, handle,
NULL)` does not wait for them, so they run behind `stop()`, and on what is left of the object
behind its destruction. -/
namespace CppMisc.Timers
open Runs

structure Lifetime (A : Type*) where
  world : World A
  destroyed : Bool
  /-- The actions that callbacks have run. -/
  ticked : List A
  /-- The callbacks that have run on the object when it was gone. -/
  dangling : List ℕ

inductive Happening (A : Type*)
  | call (c : Call A)
  | expire (id : ℕ)
  | callback (id : ℕ)
  | destroy
  deriving DecidableEq, Repr

namespace Lifetime

variable {A : Type*}

def new : Lifetime A := ⟨⟨Timer.new, TimerQueue.empty⟩, false, [], []⟩

def callback (s : Lifetime A) (id : ℕ) : Lifetime A :=
  let queue := { s.world.queue with pending := s.world.queue.pending.erase id }
  let s := { s with world := { s.world with queue := queue } }
  if s.destroyed then { s with dangling := s.dangling ++ [id] }
  else { s with ticked := s.ticked ++ (timerTick (some s.world.timer) true).toList }

/-- There are no calls on a destroyed object, but its timers and callbacks go on. -/
def step (s : Lifetime A) : Happening A → Option (Lifetime A)
  | .call c => if s.destroyed then none else some { s with world := s.world.apply c }
  | .expire id => (s.world.queue.expire id).map fun queue =>
      { s with world := { s.world with queue := queue } }
  | .callback id => if id ∈ s.world.queue.pending then some (s.callback id) else none
  | .destroy =>
      if s.destroyed then none else some { s with world := s.world.destroy, destroyed := true }

def pending (s : Lifetime A) : List ℕ := s.world.queue.pending

/-- The timers that can still expire when `stop()` has been called. -/
def loose (s : Lifetime A) : List OsTimer := s.world.stop.queue.live.filter OsTimer.armed

end Lifetime

def Happening.starts {A : Type*} : Happening A → Bool
  | .call c => !c.isStop
  | _ => false

namespace Lifetime

variable {A : Type*}

@[simp] lemma stop_pending (w : World A) : w.stop.queue.pending = w.queue.pending := by
  unfold World.stop
  split
  · rfl
  · exact (w.queue.delete_spec _).2

@[simp] lemma stop_action (w : World A) : w.stop.timer.action = w.timer.action := by
  unfold World.stop
  split <;> rfl

/-- No timer of the queue expires any more. -/
def Unarmed (q : TimerQueue) : Prop := ∀ t ∈ q.live, t.armed = false

lemma unarmed_stop {w : World A} (h : Unarmed w.queue) : Unarmed w.stop.queue := by
  unfold World.stop
  split
  · exact h
  · intro t ht
    rw [(w.queue.delete_spec _).1] at ht
    exact h t (List.mem_filter.mp ht).1

lemma loose_eq_nil {s : Lifetime A} : s.loose = [] ↔ Unarmed s.world.stop.queue := by
  simp [loose, Unarmed, List.filter_eq_nil_iff]

lemma Unarmed.expire {q : TimerQueue} (h : Unarmed q) (id : ℕ) : q.expire id = none := by
  unfold TimerQueue.expire
  rw [if_neg]
  rw [List.any_eq_true]
  rintro ⟨t, ht, harmed⟩
  simp [h t ht] at harmed

/-- Without a start, what has ticked and what is still pending do not grow together. -/
lemma unarmed_step {s s' : Lifetime A} {e : Happening A} (h : Unarmed s.world.queue)
    (he : e.starts = false) (hs : s.step e = some s') :
    Unarmed s'.world.queue ∧
      s'.ticked.length + s'.pending.length ≤ s.ticked.length + s.pending.length ∧
      s'.dangling.length + s'.pending.length ≤ s.dangling.length + s.pending.length := by
  cases e with
  | call c =>
    simp only [step] at hs
    split_ifs at hs
    obtain rfl := Option.some.inj hs
    obtain rfl : c = .stop := by cases c <;> first | rfl | cases he
    refine ⟨unarmed_stop h, ?_, ?_⟩ <;> simp [pending, World.apply]
  | expire id =>
    simp only [step, h.expire id, Option.map_none] at hs
    cases hs
  | callback id =>
    simp only [step] at hs
    split_ifs at hs with hid
    obtain rfl := Option.some.inj hs
    have hlen := List.length_erase_of_mem hid
    have hpos := List.length_pos_of_mem hid
    unfold callback
    cases hd : s.destroyed with
    | true =>
      refine ⟨h, ?_, ?_⟩
      · simp only [if_true, pending, hlen]
        omega
      · simp only [if_true, pending, hlen, List.length_append, List.length_singleton]
        omega
    | false =>
      refine ⟨h, ?_, ?_⟩
      · have hone : (timerTick (some s.world.timer) true).toList.length ≤ 1 :=
          Option.length_toList_le
        simp only [Bool.false_eq_true, if_false, pending, hlen, List.length_append]
        omega
      · simp only [Bool.false_eq_true, if_false, pending, hlen]
        omega
  | destroy =>
    simp only [step] at hs
    split_ifs at hs
    obtain rfl := Option.some.inj hs
    refine ⟨unarmed_stop h, ?_, ?_⟩ <;> simp [pending, World.destroy]

/-- What a run keeps: a timer that was created has an action to run, and nothing runs on an
object that is not destroyed. -/
structure Sound (s : Lifetime A) : Prop where
  numbered : s.world.queue.Numbered
  action : 0 < s.world.queue.created → ∃ a, s.world.timer.action = some a
  dangling : s.destroyed = false → s.dangling = []

lemma apply_created (w : World A) (c : Call A) (hw : w.queue.Numbered)
    (ha : 0 < w.queue.created → ∃ a, w.timer.action = some a) :
    (w.apply c).queue.Numbered ∧
      (0 < (w.apply c).queue.created → ∃ a, (w.apply c).timer.action = some a) := by
  cases c with
  | start startMilli repeatMilli action created =>
    cases created
    · exact ⟨hw, fun _ => ⟨action, rfl⟩⟩
    · exact ⟨hw.create _ _, fun _ => ⟨action, rfl⟩⟩
  | startEvery milli action created =>
    cases created
    · exact ⟨hw, fun _ => ⟨action, rfl⟩⟩
    · exact ⟨hw.create _ _, fun _ => ⟨action, rfl⟩⟩
  | once milli action created =>
    cases created
    · exact ⟨hw, fun _ => ⟨action, rfl⟩⟩
    · exact ⟨hw.create _ _, fun _ => ⟨action, rfl⟩⟩
  | stop =>
    refine ⟨World.stop_numbered hw, fun hpos => ?_⟩
    simp only [World.apply, World.stop_created, stop_action] at hpos ⊢
    exact ha hpos

lemma sound_step {s s' : Lifetime A} {e : Happening A} (h : Sound s) (hs : s.step e = some s') :
    Sound s' := by
  cases e with
  | call c =>
    simp only [step] at hs
    split_ifs at hs with hd
    obtain rfl := Option.some.inj hs
    obtain ⟨hnumbered, haction⟩ := apply_created s.world c h.numbered h.action
    exact ⟨hnumbered, haction, h.dangling⟩
  | expire id =>
    obtain ⟨queue, hq, rfl⟩ := Option.map_eq_some_iff.mp hs
    refine ⟨h.numbered.expire hq, ?_, h.dangling⟩
    unfold TimerQueue.expire at hq
    split_ifs at hq
    obtain rfl := Option.some.inj hq
    exact h.action
  | callback id =>
    simp only [step] at hs
    split_ifs at hs
    obtain rfl := Option.some.inj hs
    have hnumbered : ({ s.world.queue with
        pending := s.world.queue.pending.erase id } : TimerQueue).Numbered :=
      ⟨h.numbered.live_id, fun k hk => h.numbered.pending_id k (List.mem_of_mem_erase hk)⟩
    unfold callback
    cases hd : s.destroyed with
    | true => exact ⟨hnumbered, h.action, by simp⟩
    | false => exact ⟨hnumbered, h.action, fun _ => h.dangling hd⟩
  | destroy =>
    simp only [step] at hs
    split_ifs at hs
    obtain rfl := Option.some.inj hs
    refine ⟨World.stop_numbered h.numbered, fun hpos => ?_, by simp⟩
    simp only [World.destroy, World.stop_created, stop_action] at hpos ⊢
    exact h.action hpos

lemma sound_new : Sound (new : Lifetime A) :=
  ⟨TimerQueue.numbered_empty, fun hpos => absurd hpos (Nat.lt_irrefl 0), fun _ => rfl⟩

lemma sound_run {es : List (Happening A)} {s : Lifetime A} (h : run step new es = some s) :
    Sound s :=
  run_invariant (I := Sound) (fun _ _ _ hi he => sound_step hi he) h sound_new

/-- A live timer that is armed expires, and its callback is queued behind the others. -/
lemma expire_armed {q : TimerQueue} {t : OsTimer} (ht : t ∈ q.live) (harmed : t.armed = true) :
    ∃ q', q.expire t.id = some q' ∧ q'.pending = q.pending ++ [t.id] := by
  unfold TimerQueue.expire
  rw [if_pos (List.any_eq_true.mpr ⟨t, ht, by simp [harmed]⟩)]
  exact ⟨_, rfl, rfl⟩

/-- Nothing has run on what is left of the object, and nothing can any more. -/
structure Quiet (s : Lifetime A) : Prop where
  destroyed : s.destroyed = true
  unarmed : Unarmed s.world.queue
  untouched : s.dangling.length + s.pending.length = 0

lemma quiet_step {s s' : Lifetime A} {e : Happening A} (h : Quiet s) (hs : s.step e = some s') :
    Quiet s' := by
  have hstarts : e.starts = false := by
    cases e with
    | call c => simp [step, h.destroyed] at hs
    | expire id => rfl
    | callback id => rfl
    | destroy => rfl
  obtain ⟨hunarmed, -, hle⟩ := unarmed_step h.unarmed hstarts hs
  have huntouched := h.untouched
  refine ⟨?_, hunarmed, by omega⟩
  cases e with
  | call c => simp [step, h.destroyed] at hs
  | expire id =>
    obtain ⟨q, -, rfl⟩ := Option.map_eq_some_iff.mp hs
    exact h.destroyed
  | callback id =>
    simp only [step] at hs
    split_ifs at hs
    obtain rfl := Option.some.inj hs
    simp [callback, h.destroyed]
  | destroy => simp [step, h.destroyed] at hs

/-- When nothing ever runs on what is left of a `Timer`: exactly where no callback is pending at
its destruction, and no timer is live that `stop()` does not know of. -/
theorem destroyed_untouched_iff {es : List (Happening A)} {s : Lifetime A}
    (h : run step new es = some s) (hs : s.destroyed = false) :
    (∀ fs s', run step s (.destroy :: fs) = some s' → s'.dangling = []) ↔
      s.pending = [] ∧ s.loose = [] := by
  have hdangling := (sound_run h).dangling hs
  have hdestroy : s.step .destroy =
      some { s with world := s.world.destroy, destroyed := true } := by simp [step, hs]
  constructor
  · intro hall
    constructor
    · by_contra hne
      obtain ⟨id, hid⟩ := List.exists_mem_of_ne_nil _ hne
      have hmem : id ∈ s.world.destroy.queue.pending := by rwa [World.destroy, stop_pending]
      have hrun := hall [.callback id] _ (by
        rw [run_cons, hdestroy, Option.bind_some, run_cons, step, if_pos hmem]
        rfl)
      simp [callback] at hrun
    · by_contra hne
      obtain ⟨t, ht⟩ := List.exists_mem_of_ne_nil _ hne
      obtain ⟨hlive, harmed⟩ := List.mem_filter.mp ht
      obtain ⟨q, hq, hpending⟩ := expire_armed (q := s.world.destroy.queue) hlive harmed
      have hmem : t.id ∈ q.pending := by rw [hpending]; simp
      have hrun := hall [.expire t.id, .callback t.id] _ (by
        rw [run_cons, hdestroy, Option.bind_some, run_cons, step, hq, Option.map_some,
          Option.bind_some, run_cons, step, if_pos hmem]
        rfl)
      simp [callback] at hrun
  · rintro ⟨hpending, hloose⟩ fs s' hrun
    rw [run_cons, hdestroy, Option.bind_some] at hrun
    have hnone : s.world.destroy.queue.pending = [] := by rwa [World.destroy, stop_pending]
    have hquiet : Quiet s' :=
      run_invariant (I := Quiet) (fun _ _ _ hu he => quiet_step hu he) hrun
        ⟨rfl, loose_eq_nil.mp hloose, by simp [hdangling, pending, hnone]⟩
    have huntouched := hquiet.untouched
    exact List.length_eq_zero_iff.mp (by omega)

/-- One timer that expires before it is stopped: its callback runs when the object is gone. -/
def stoppedLate : List (Happening Unit) :=
  [.call (.once 500 () true), .expire 1, .call .stop]

theorem destroyed_untouched_iff_late :
    ∃ s, run step new stoppedLate = some s ∧
      ¬ ∀ fs s', run step s (.destroy :: fs) = some s' → s'.dangling = [] := by
  obtain ⟨s, hs, hd, hp⟩ : ∃ s, run step new stoppedLate = some s ∧ s.destroyed = false ∧
      s.pending = [1] := ⟨_, rfl, rfl, rfl⟩
  refine ⟨s, hs, fun hall => ?_⟩
  have hpending := ((destroyed_untouched_iff hs hd).mp hall).1
  rw [hp] at hpending
  cases hpending

/-- The callbacks that are pending run one after the other. -/
lemma run_callbacks {s : Lifetime A} (hd : s.destroyed = false) {a : A}
    (ha : s.world.timer.action = some a) :
    ∃ s', run step s (s.pending.map .callback) = some s' ∧ s'.destroyed = false ∧
      s'.ticked.length = s.ticked.length + s.pending.length ∧ s'.pending = [] ∧
      s'.world.timer = s.world.timer ∧ s'.world.queue.live = s.world.queue.live := by
  induction hp : s.pending generalizing s with
  | nil => exact ⟨s, rfl, hd, rfl, hp, rfl, rfl⟩
  | cons id ids ih =>
    have hid : id ∈ s.world.queue.pending := by
      change id ∈ s.pending
      rw [hp]
      exact List.mem_cons_self
    have hstep : s.step (.callback id) = some (s.callback id) := by rw [step, if_pos hid]
    have hnext : (s.callback id).pending = ids := by
      simp only [callback, hd, Bool.false_eq_true, if_false, pending]
      rw [show s.world.queue.pending = id :: ids from hp, List.erase_cons_head]
    have hd' : (s.callback id).destroyed = false := by simp [callback, hd]
    have ha' : (s.callback id).world.timer.action = some a := by simp [callback, hd, ha]
    have hticked : (s.callback id).ticked.length = s.ticked.length + 1 := by
      simp [callback, hd, timerTick, Timer.tick, ha]
    obtain ⟨s', hrun, hd'', hlen, hnone, htimer, hlive⟩ := ih hd' ha' hnext
    refine ⟨s', ?_, hd'', ?_, hnone, ?_, ?_⟩
    · rw [List.map_cons, run_cons, hstep, Option.bind_some, hrun]
    · rw [hlen, hticked, List.length_cons]
      omega
    · rw [htimer]
      simp [callback, hd]
    · rw [hlive]
      simp [callback, hd]

/-- All that is pending can still run, and each callback finds an action. -/
lemma Sound.run_pending {s : Lifetime A} (h : Sound s) (hd : s.destroyed = false) :
    ∃ s', run step s (s.pending.map .callback) = some s' ∧ s'.destroyed = false ∧
      s'.ticked.length = s.ticked.length + s.pending.length ∧ s'.pending = [] ∧
      s'.world.timer = s.world.timer ∧ s'.world.queue.live = s.world.queue.live := by
  cases hp : s.pending with
  | nil => exact ⟨s, rfl, hd, rfl, hp, rfl, rfl⟩
  | cons id ids =>
    have hid : id ∈ s.world.queue.pending := by
      change id ∈ s.pending
      rw [hp]
      exact List.mem_cons_self
    obtain ⟨hone, hcreated⟩ := h.numbered.pending_id id hid
    obtain ⟨a, ha⟩ := h.action (by omega)
    rw [← hp]
    exact run_callbacks hd ha

lemma callback_not_starts (ids : List ℕ) :
    ∀ e ∈ ids.map (Happening.callback (A := A)), e.starts = false := by
  intro e he
  obtain ⟨id, -, rfl⟩ := List.mem_map.mp he
  rfl

/-- A loose timer expires behind `stop()` and runs the action once more than was pending. -/
lemma Sound.tick_loose {s : Lifetime A} (h : Sound s) (hd : s.destroyed = false)
    {t : OsTimer} (ht : t ∈ s.world.queue.live) (harmed : t.armed = true) :
    ∃ fs s', (∀ e ∈ fs, e.starts = false) ∧ run step s fs = some s' ∧
      s'.ticked.length = s.ticked.length + s.pending.length + 1 := by
  obtain ⟨hone, hcreated⟩ := h.numbered.live_id t ht
  obtain ⟨a, ha⟩ := h.action (by omega)
  obtain ⟨u, hrun, hdu, hlen, hnone, htimer, hlive⟩ := h.run_pending hd
  obtain ⟨q, hq, hpending⟩ := expire_armed (q := u.world.queue) (hlive ▸ ht) harmed
  have hmem : t.id ∈ q.pending := by rw [hpending]; simp
  let v : Lifetime A := { u with world := { u.world with queue := q } }
  refine ⟨s.pending.map .callback ++ [.expire t.id, .callback t.id], v.callback t.id, ?_, ?_, ?_⟩
  · intro e he
    rcases List.mem_append.mp he with he | he
    · exact callback_not_starts _ e he
    · simp only [List.mem_cons, List.not_mem_nil, or_false] at he
      rcases he with rfl | rfl <;> rfl
  · rw [run_append, hrun, Option.bind_some, run_cons, step, hq, Option.map_some,
      Option.bind_some, run_cons, step, if_pos hmem]
    rfl
  · simp [v, callback, hdu, htimer, ha, timerTick, Timer.tick, hlen]

/-- How often the action still runs behind `stop()` as long as nothing is started: at most once
for each callback that is pending then, exactly where no timer is live that `stop()` does not
know of; and it may be that often. -/
theorem stopped_ticks_iff {es : List (Happening A)} {s : Lifetime A}
    (h : run step new es = some s) (hs : s.destroyed = false) :
    ((∀ fs s', (∀ e ∈ fs, e.starts = false) → run step s (.call .stop :: fs) = some s' →
        s'.ticked.length ≤ s.ticked.length + s.pending.length) ↔ s.loose = []) ∧
      ∃ fs s', (∀ e ∈ fs, e.starts = false) ∧ run step s (.call .stop :: fs) = some s' ∧
        s'.ticked.length = s.ticked.length + s.pending.length := by
  have hstop : s.step (.call .stop) = some { s with world := s.world.stop } := by
    simp [step, hs, World.apply]
  have hsound := sound_step (sound_run h) hstop
  have hpending : ({ s with world := s.world.stop } : Lifetime A).pending = s.pending :=
    stop_pending s.world
  refine ⟨⟨fun hall => ?_, fun hloose fs s' hfs hrun => ?_⟩, ?_⟩
  · by_contra hne
    obtain ⟨t, ht⟩ := List.exists_mem_of_ne_nil _ hne
    obtain ⟨hlive, harmed⟩ := List.mem_filter.mp ht
    obtain ⟨fs, s', hfs, hrun, hlen⟩ := hsound.tick_loose hs hlive harmed
    have hle := hall fs s' hfs (by rw [run_cons, hstop, Option.bind_some, hrun])
    rw [hpending] at hlen
    dsimp only at hlen
    omega
  · rw [run_cons, hstop, Option.bind_some] at hrun
    have hinv := run_invariant_of (C := fun e : Happening A => e.starts = false)
      (I := fun u : Lifetime A => Unarmed u.world.queue ∧
        u.ticked.length + u.pending.length ≤ s.ticked.length + s.pending.length) ?_ hfs hrun ?_
    · omega
    · rintro u e u' ⟨harm, hle⟩ he hu
      obtain ⟨harm', hle', -⟩ := unarmed_step harm he hu
      exact ⟨harm', by omega⟩
    · refine ⟨loose_eq_nil.mp hloose, ?_⟩
      rw [hpending]
  · obtain ⟨s', hrun, -, hlen, -⟩ := hsound.run_pending hs
    rw [hpending] at hrun hlen
    refine ⟨s.pending.map .callback, s', callback_not_starts _, ?_, hlen⟩
    rw [run_cons, hstop, Option.bind_some, hrun]

/-- A timer that a second `once()` made `stop()` forget ticks when all is stopped. -/
def forgotten : List (Happening Unit) :=
  [.call (.once 500 () true), .call (.once 500 () true)]

theorem stopped_ticks_iff_forgotten :
    ∃ s, run step new forgotten = some s ∧
      ¬ ∀ fs s', (∀ e ∈ fs, e.starts = false) → run step s (.call .stop :: fs) = some s' →
        s'.ticked.length ≤ s.ticked.length + s.pending.length := by
  obtain ⟨s, hs, hd, hl⟩ : ∃ s, run step new forgotten = some s ∧ s.destroyed = false ∧
      s.loose = [⟨1, 500, 0, true⟩] := ⟨_, rfl, rfl, rfl⟩
  refine ⟨s, hs, fun hall => ?_⟩
  have hnone := ((stopped_ticks_iff hs hd).1.mp hall)
  rw [hl] at hnone
  cases hnone

end Lifetime

end CppMisc.Timers
