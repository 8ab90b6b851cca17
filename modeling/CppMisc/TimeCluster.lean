import CppMisc.BatchLedger
import CppMisc.Runs
import CppMisc.TimerModel

/-! `TimeCluster` of `stream4.cc` together with the timer queue: every call takes the
lock, so a run is a sequence of calls, expiries and callbacks. Items carry the number of
items pushed before them, which tells equal items apart and changes nothing else. -/
namespace CppMisc.Stream
open BatchLedger Timers

/-- What a cluster needs of the stage behind it, whose final action takes items of `ω`. -/
structure Downstream (A ι ω : Type*) where
  call : A → ι → A × List ω
  reset : A → A

inductive Callback
  | flushAndReset
  deriving DecidableEq, Repr

structure TimeCluster (A τ : Type*) where
  action : A
  items : List τ
  first : Bool
  milliseconds : Int32
  timer : Timer Callback

def TimeCluster.new {A : Type*} (τ : Type*) (action : A) (milliseconds : Int32) :
    TimeCluster A τ :=
  ⟨action, [], true, milliseconds, Timer.new⟩

namespace TimeCluster

variable {A τ ω : Type*}

/-- `operator()`; the flag is false where `Timer::once` throws. -/
def call (c : TimeCluster A τ) (queue : TimerQueue) (created : Bool) (item : τ) :
    TimeCluster A τ × TimerQueue × Bool :=
  if c.first then
    let r := World.once ⟨c.timer, queue⟩ created c.milliseconds.toUInt32 Callback.flushAndReset
    if r.2 then
      ({ c with timer := r.1.timer, first := false, items := c.items ++ [item] }, r.1.queue, true)
    else ({ c with timer := r.1.timer }, r.1.queue, false)
  else ({ c with items := c.items ++ [item] }, queue, true)

def reset (d : Downstream A (List τ) ω) (c : TimeCluster A τ) (queue : TimerQueue) :
    TimeCluster A τ × TimerQueue :=
  let w := World.stop ⟨c.timer, queue⟩
  ({ c with timer := w.timer, items := [], action := d.reset c.action, first := true }, w.queue)

/-- The last component is what the final action receives. -/
def flushAndReset (d : Downstream A (List τ) ω) (c : TimeCluster A τ) (queue : TimerQueue) :
    TimeCluster A τ × TimerQueue × List ω :=
  if c.items.isEmpty then
    let r := c.reset d queue
    (r.1, r.2, [])
  else
    let a := d.call c.action c.items
    let r := TimeCluster.reset d { c with action := a.1 } queue
    (r.1, r.2, a.2)

end TimeCluster

/-- A batch and the timer whose callback handed it downstream; none for a direct call. -/
structure Delivery (τ : Type*) where
  timer : Option ℕ
  batch : List (Entry τ)
  deriving DecidableEq, Repr

/-- The stage behind the cluster, with a record of the batches that it was called with. -/
def Downstream.recorded {A τ ω : Type*} (d : Downstream A (List τ) ω) :
    Downstream (A × List (List (Entry τ))) (List (Entry τ)) ω where
  call a batch :=
    let r := d.call a.1 (batch.map Entry.value)
    ((r.1, a.2 ++ [batch]), r.2)
  reset a := (d.reset a.1, a.2)

structure System (A τ ω : Type*) where
  cluster : TimeCluster (A × List (List (Entry τ))) (Entry τ)
  queue : TimerQueue
  /-- The items that `operator()` has taken. -/
  pushed : List (Entry τ)
  /-- How many items had been pushed when each of the timers was created. -/
  onceAt : List ℕ
  /-- The serials of the items that a direct `reset()` has found in `items_`. -/
  discarded : List ℕ
  deliveries : List (Delivery τ)
  /-- What the final action has received. -/
  received : List ω

inductive Event (τ : Type*)
  | push (value : τ) (created : Bool)
  | expire (id : ℕ)
  | callback (id : ℕ)
  | flushAndReset
  | reset
  deriving DecidableEq, Repr

namespace System

variable {A τ ω : Type*} (d : Downstream A (List τ) ω)

def new (τ : Type*) {A ω : Type*} (action : A) (milliseconds : Int32) : System A τ ω where
  cluster := TimeCluster.new (Entry τ) (action, []) milliseconds
  queue := TimerQueue.empty
  pushed := []
  onceAt := []
  discarded := []
  deliveries := []
  received := []

def handed (s : System A τ ω) : List (List (Entry τ)) := s.cluster.action.2

def push (s : System A τ ω) (value : τ) (created : Bool) : System A τ ω :=
  let entry : Entry τ := ⟨value, s.pushed.length⟩
  let r := s.cluster.call s.queue created entry
  { s with
    cluster := r.1
    queue := r.2.1
    pushed := if r.2.2 then s.pushed ++ [entry] else s.pushed
    onceAt := if r.2.1.created = s.queue.created then s.onceAt else s.onceAt ++ [s.pushed.length] }

def flush (s : System A τ ω) (timer : Option ℕ) : System A τ ω :=
  let r := s.cluster.flushAndReset d.recorded s.queue
  { s with
    cluster := r.1
    queue := r.2.1
    deliveries := s.deliveries ++ (r.1.action.2.drop s.handed.length).map (Delivery.mk timer)
    received := s.received ++ r.2.2 }

/-- The queue runs a callback: `timer_tick` on the timer of the cluster. -/
def callback (s : System A τ ω) (id : ℕ) : System A τ ω :=
  let s := { s with queue := { s.queue with pending := s.queue.pending.erase id } }
  match timerTick (some s.cluster.timer) true with
  | some Callback.flushAndReset => s.flush d (some id)
  | none => s

def reset (s : System A τ ω) : System A τ ω :=
  let r := s.cluster.reset d.recorded s.queue
  { s with
    cluster := r.1
    queue := r.2
    discarded := s.discarded ++ s.cluster.items.map Entry.serial }

/-- Only armed timers expire and only queued callbacks run. -/
def step (s : System A τ ω) : Event τ → Option (System A τ ω)
  | .push value created => some (s.push value created)
  | .expire id => (s.queue.expire id).map fun queue => { s with queue }
  | .callback id => if id ∈ s.queue.pending then some (s.callback d id) else none
  | .flushAndReset => some (s.flush d none)
  | .reset => some (s.reset d)

end System

/-! What the calls do to the parts of a system. -/

namespace System

variable {A τ ω : Type*} (d : Downstream A (List τ) ω)

/-- The account of the items: what the cluster is for. -/
def ledger (s : System A τ ω) : Ledger τ := ⟨s.handed, s.cluster.items, s.pushed, s.discarded⟩

lemma flush_spec (s : System A τ ω) (timer : Option ℕ) :
    (s.flush d timer).ledger = s.ledger.flush ∧ (s.flush d timer).cluster.first = true ∧
      (s.flush d timer).queue.created = s.queue.created ∧
      (s.flush d timer).onceAt = s.onceAt ∧
      (s.flush d timer).deliveries =
        s.deliveries ++ (flushed s.cluster.items).map (Delivery.mk timer) := by
  cases h : s.cluster.items <;>
    simp [flush, ledger, Ledger.flush, handed, TimeCluster.flushAndReset, TimeCluster.reset,
      Downstream.recorded, flushed, h]

lemma reset_spec (s : System A τ ω) :
    (s.reset d).ledger = s.ledger.discard ∧ (s.reset d).cluster.first = true ∧
      (s.reset d).queue.created = s.queue.created ∧ (s.reset d).onceAt = s.onceAt ∧
      (s.reset d).deliveries = s.deliveries := by
  simp [reset, ledger, Ledger.discard, handed, TimeCluster.reset, Downstream.recorded]

lemma push_throw (s : System A τ ω) (value : τ) (hf : s.cluster.first = true) :
    (s.push value false).ledger = s.ledger ∧ (s.push value false).cluster.first = true ∧
      (s.push value false).queue = s.queue ∧ (s.push value false).onceAt = s.onceAt ∧
      (s.push value false).deliveries = s.deliveries := by
  simp [push, ledger, handed, TimeCluster.call, hf, World.once, World.init]

lemma push_first (s : System A τ ω) (value : τ) (hf : s.cluster.first = true) :
    (s.push value true).ledger = s.ledger.enter value ∧
      (s.push value true).cluster.first = false ∧
      (s.push value true).cluster.timer.action = some .flushAndReset ∧
      (s.push value true).queue = s.queue.create s.cluster.milliseconds.toUInt32 0 ∧
      (s.push value true).onceAt = s.onceAt ++ [s.pushed.length] ∧
      (s.push value true).deliveries = s.deliveries := by
  simp [push, ledger, Ledger.enter, Ledger.next, handed, TimeCluster.call, hf, World.once,
    World.init, TimerQueue.create]

lemma push_next (s : System A τ ω) (value : τ) (created : Bool)
    (hf : s.cluster.first = false) :
    (s.push value created).ledger = s.ledger.enter value ∧
      (s.push value created).cluster.first = false ∧
      (s.push value created).cluster.timer = s.cluster.timer ∧
      (s.push value created).queue = s.queue ∧ (s.push value created).onceAt = s.onceAt ∧
      (s.push value created).deliveries = s.deliveries := by
  simp [push, ledger, Ledger.enter, Ledger.next, handed, TimeCluster.call, hf]

def running (s : System A τ ω) (id : ℕ) : System A τ ω :=
  { s with queue := { s.queue with pending := s.queue.pending.erase id } }

lemma step_expire {s s' : System A τ ω} {id : ℕ} (h : s.step d (.expire id) = some s') :
    ∃ queue, s.queue.expire id = some queue ∧ s' = { s with queue } := by
  obtain ⟨queue, hqueue, rfl⟩ := Option.map_eq_some_iff.mp h
  exact ⟨queue, hqueue, rfl⟩

lemma step_callback {s s' : System A τ ω} {id : ℕ} (h : s.step d (.callback id) = some s') :
    id ∈ s.queue.pending ∧ s' = s.callback d id := by
  simp only [step] at h
  split_ifs at h with hid
  exact ⟨hid, (Option.some.inj h).symm⟩

lemma callback_flush (s : System A τ ω) (id : ℕ)
    (ha : s.cluster.timer.action = some .flushAndReset) :
    s.callback d id = (s.running id).flush d (some id) := by
  simp [callback, running, timerTick, Timer.tick, ha]

lemma callback_skip (s : System A τ ω) (id : ℕ) (ha : s.cluster.timer.action = none) :
    s.callback d id = s.running id := by
  simp [callback, running, timerTick, Timer.tick, ha]

end System

end CppMisc.Stream
