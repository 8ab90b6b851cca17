import Mathlib

/-! `Timer` of `timer_w32.cc` over the timer queue of the system. The queue is the part
of the system that the class calls: which timers exist, which of them will still expire,
and which callbacks have been queued for a timer and not run yet. -/
namespace CppMisc.Timers

/-- `INVALID_HANDLE_VALUE`, or the handle of the `id`-th timer that was created. -/
inductive Handle
  | invalid
  | timer (id : ℕ)
  deriving DecidableEq, Repr

structure OsTimer where
  id : ℕ
  dueTime : UInt32
  period : UInt32
  armed : Bool
  deriving DecidableEq, Repr

structure TimerQueue where
  created : ℕ
  live : List OsTimer
  /-- The timers of the queued callbacks. -/
  pending : List ℕ
  /-- Handles that were to be deleted and named no live timer. -/
  stale : List Handle
  deriving DecidableEq, Repr

namespace TimerQueue

def empty : TimerQueue := ⟨0, [], [], []⟩

def isLive (q : TimerQueue) (id : ℕ) : Bool := q.live.any fun t => t.id == id

/-- `CreateTimerQueueTimer` where it succeeds. -/
def create (q : TimerQueue) (dueTime period : UInt32) : TimerQueue :=
  { q with
    created := q.created + 1
    live := q.live ++ [⟨q.created + 1, dueTime, period, true⟩] }

/-- `DeleteTimerQueueTimer(NULL, handle, NULL)`, which does not wait for callbacks. -/
def delete (q : TimerQueue) : Handle → TimerQueue
  | .invalid => { q with stale := q.stale ++ [.invalid] }
  | .timer id =>
      if q.isLive id then { q with live := q.live.filter fun t => t.id != id }
      else { q with stale := q.stale ++ [.timer id] }

/-- An armed timer expires and its callback is queued. Without a period it expires once. -/
def expire (q : TimerQueue) (id : ℕ) : Option TimerQueue :=
  if q.live.any fun t => t.id == id && t.armed then
    some { q with
      live := q.live.map fun t => if t.id = id then { t with armed := t.period != 0 } else t
      pending := q.pending ++ [id] }
  else none

lemma expire_create (q : TimerQueue) (dueTime period : UInt32) :
    ∃ q', (q.create dueTime period).expire (q.created + 1) = some q' ∧
      q.created + 1 ∈ q'.pending := by
  have harmed : ((q.create dueTime period).live.any fun t =>
      t.id == q.created + 1 && t.armed) = true := by
    simp [create]
  unfold expire
  rw [if_pos harmed]
  exact ⟨_, rfl, by simp⟩

lemma delete_spec (q : TimerQueue) (handle : Handle) :
    (q.delete handle).live = (q.live.filter fun t => .timer t.id != handle) ∧
      (q.delete handle).pending = q.pending := by
  cases handle with
  | invalid => exact ⟨(List.filter_eq_self.mpr fun t _ => rfl).symm, rfl⟩
  | timer id =>
    unfold delete
    dsimp only
    split_ifs with hlive
    · refine ⟨List.filter_congr fun t _ => ?_, rfl⟩
      simp [bne]
    · refine ⟨(List.filter_eq_self.mpr ?_).symm, rfl⟩
      intro t ht
      by_contra hid
      exact hlive (List.any_eq_true.mpr ⟨t, ht, by simpa using hid⟩)

structure Numbered (q : TimerQueue) : Prop where
  live_id : ∀ t ∈ q.live, 1 ≤ t.id ∧ t.id ≤ q.created
  pending_id : ∀ id ∈ q.pending, 1 ≤ id ∧ id ≤ q.created

lemma numbered_empty : Numbered empty := ⟨by simp [empty], by simp [empty]⟩

lemma Numbered.create {q : TimerQueue} (h : q.Numbered) (dueTime period : UInt32) :
    (q.create dueTime period).Numbered where
  live_id t ht := by
    rcases List.mem_append.mp ht with ht | ht
    · exact ⟨(h.live_id t ht).1, (h.live_id t ht).2.trans (Nat.le_succ _)⟩
    · obtain rfl := List.mem_singleton.mp ht
      exact ⟨Nat.le_add_left 1 _, le_rfl⟩
  pending_id id hid := ⟨(h.pending_id id hid).1, (h.pending_id id hid).2.trans (Nat.le_succ _)⟩

lemma Numbered.delete {q : TimerQueue} (h : q.Numbered) (handle : Handle) :
    (q.delete handle).Numbered := by
  unfold TimerQueue.delete
  split
  · exact ⟨h.live_id, h.pending_id⟩
  · split
    · exact ⟨fun t ht => h.live_id t (List.mem_filter.mp ht).1, h.pending_id⟩
    · exact ⟨h.live_id, h.pending_id⟩

lemma Numbered.expire {q q' : TimerQueue} (h : q.Numbered) {id : ℕ}
    (hq : q.expire id = some q') : q'.Numbered := by
  unfold TimerQueue.expire at hq
  split_ifs at hq with harmed
  obtain rfl := Option.some.inj hq
  obtain ⟨t, ht, hid⟩ := List.any_eq_true.mp harmed
  rw [Bool.and_eq_true, beq_iff_eq] at hid
  constructor
  · intro u hu
    obtain ⟨v, hv, rfl⟩ := List.mem_map.mp hu
    have hid : (if v.id = id then { v with armed := v.period != 0 } else v).id = v.id := by
      split <;> rfl
    rw [hid]
    exact h.live_id v hv
  · intro k hk
    rcases List.mem_append.mp hk with hk | hk
    · exact h.pending_id k hk
    · obtain rfl := List.mem_singleton.mp hk
      exact hid.1 ▸ h.live_id t ht

end TimerQueue

/-- `action_` is a `std::function` that may be empty. -/
structure Timer (A : Type*) where
  action : Option A
  timerHandle : Handle
  disposed : Bool
  deriving DecidableEq, Repr

structure World (A : Type*) where
  timer : Timer A
  queue : TimerQueue
  deriving DecidableEq, Repr

variable {A : Type*}

def Timer.new : Timer A := ⟨none, .invalid, true⟩

namespace World

/-- `init`: where the creation fails it throws, with `disposed_` already cleared. -/
def init (w : World A) (created : Bool) (startMilli repeatMilli : UInt32) : World A × Bool :=
  let timer := { w.timer with disposed := false }
  if created then
    let queue := w.queue.create startMilli repeatMilli
    (⟨{ timer with timerHandle := .timer queue.created }, queue⟩, true)
  else (⟨timer, w.queue⟩, false)

def start (w : World A) (created : Bool) (startMilli repeatMilli : UInt32) (action : A) :
    World A × Bool :=
  init { w with timer := { w.timer with action := some action } } created startMilli repeatMilli

def startEvery (w : World A) (created : Bool) (milli : UInt32) (action : A) : World A × Bool :=
  init { w with timer := { w.timer with action := some action } } created milli milli

def once (w : World A) (created : Bool) (milli : UInt32) (action : A) : World A × Bool :=
  init { w with timer := { w.timer with action := some action } } created milli 0

def stop (w : World A) : World A :=
  if w.timer.disposed then w
  else ⟨{ w.timer with disposed := true }, w.queue.delete w.timer.timerHandle⟩

/-- `~Timer()` -/
def destroy (w : World A) : World A := w.stop

@[simp] lemma stop_created (w : World A) : w.stop.queue.created = w.queue.created := by
  unfold stop TimerQueue.delete
  split
  · rfl
  · split
    · rfl
    · split <;> rfl

lemma stop_numbered {w : World A} (h : w.queue.Numbered) : w.stop.queue.Numbered := by
  unfold stop
  split
  · exact h
  · exact h.delete _

end World

def Timer.tick (t : Timer A) : Option A := t.action

def timerTick (lpParam : Option (Timer A)) (timerOrWaitFired : Bool) : Option A :=
  match lpParam with
  | some t => if timerOrWaitFired then t.tick else none
  | none => none

inductive Call (A : Type*)
  | start (startMilli repeatMilli : UInt32) (action : A) (created : Bool)
  | startEvery (milli : UInt32) (action : A) (created : Bool)
  | once (milli : UInt32) (action : A) (created : Bool)
  | stop
  deriving DecidableEq, Repr

namespace Call

def isStop : Call A → Bool
  | .stop => true
  | _ => false

def creates : Call A → Bool
  | .start _ _ _ created => created
  | .startEvery _ _ created => created
  | .once _ _ created => created
  | .stop => false

end Call

/-- A caller that catches what `start` and `once` throw. -/
def World.apply (w : World A) : Call A → World A
  | .start startMilli repeatMilli action created =>
      (w.start created startMilli repeatMilli action).1
  | .startEvery milli action created => (w.startEvery created milli action).1
  | .once milli action created => (w.once created milli action).1
  | .stop => w.stop

end CppMisc.Timers
