import CppMisc.StreamPipeline
import CppMisc.TimeClusterRuns

/-! The move constructors of `stream4.cc`, which the builders use to put a stage into the
one before it. That of `TimeCluster` says nothing of `milliseconds_`. -/
namespace CppMisc.Stream
open BatchLedger Timers Runs

inductive Object.Event (α : Type)
  | push (item : α)
  | reset

/-- What the final action receives in one event after the other. -/
def Object.reactions {ω : Type} (g : Growth) {α : Type} :
    Object ω α → List (Object.Event α) → List (List ω)
  | _, [] => []
  | o, .push item :: es => (o.call g item).2 :: (o.call g item).1.reactions g es
  | o, .reset :: es => [] :: o.reset.reactions g es

variable {A τ ω : Type*} (d : Downstream A (List τ) ω)

/-- The move constructor: the timer is a new one, and `milliseconds_` is whatever was there.
A stage behind the cluster is moved, which leaves it as it is. -/
def TimeCluster.moved {B σ : Type*} (indeterminate : Int32) (c : TimeCluster B σ) :
    TimeCluster B σ :=
  ⟨c.action, c.items, c.first, indeterminate, Timer.new⟩

namespace System

def moved (indeterminate : Int32) (s : System A τ ω) : System A τ ω :=
  { s with cluster := s.cluster.moved indeterminate }

/-- No timer is armed and no callback is pending. -/
structure Idle (s : System A τ ω) : Prop where
  armed : ∀ t ∈ s.queue.live, t.armed = false
  pending : s.queue.pending = []

/-- The delays that the pushes of a run pass to `Timer::once`. -/
def delays : System A τ ω → List (Event τ) → List UInt32
  | _, [] => []
  | s, e :: es =>
    let passed := match e with
      | .push _ _ => if s.cluster.first then [s.cluster.milliseconds.toUInt32] else []
      | _ => []
    match s.step d e with
    | some s' => passed ++ delays s' es
    | none => passed

/-- The batches with their timers and what the final action has received. -/
def downstream (s : System A τ ω) : List (Delivery τ) × List ω := (s.deliveries, s.received)

/-- The timer object knows the one timer that the queue may have. -/
structure Held (s : System A τ ω) : Prop where
  idle : s.cluster.first = true → s.queue.live = []
  timer : s.cluster.first = false →
    s.cluster.timer = ⟨some .flushAndReset, .timer s.queue.created, false⟩
  live_id : ∀ t ∈ s.queue.live, t.id = s.queue.created
  called : s.queue.pending ≠ [] → s.cluster.timer.action = some .flushAndReset

/-- The parts of a timer in the queue that do not depend on the delay. -/
def undated (t : OsTimer) : ℕ × UInt32 × Bool := (t.id, t.period, t.armed)

/-- Two systems that differ in the delays and in the timer object only. -/
structure Alike (s m : System A τ ω) : Prop where
  action : m.cluster.action = s.cluster.action
  items : m.cluster.items = s.cluster.items
  first : m.cluster.first = s.cluster.first
  created : m.queue.created = s.queue.created
  live : m.queue.live.map undated = s.queue.live.map undated
  pending : m.queue.pending = s.queue.pending
  pushed : m.pushed = s.pushed
  downstream : m.downstream = s.downstream

lemma held_new (action : A) (milliseconds : Int32) :
    Held (System.new τ action milliseconds : System A τ ω) where
  idle _ := rfl
  timer h := by cases h
  live_id t ht := by cases ht
  called h := absurd rfl h

lemma Held.stop {s : System A τ ω} (h : Held s) :
    (World.stop ⟨s.cluster.timer, s.queue⟩).queue.live = [] ∧
      (World.stop ⟨s.cluster.timer, s.queue⟩).queue.pending = s.queue.pending ∧
      (World.stop ⟨s.cluster.timer, s.queue⟩).timer.action = s.cluster.timer.action := by
  have hlive : s.cluster.timer.disposed = true → s.queue.live = [] := by
    intro hdisposed
    by_cases hfirst : s.cluster.first = true
    · exact h.idle hfirst
    · rw [h.timer (Bool.eq_false_of_not_eq_true hfirst)] at hdisposed
      exact absurd hdisposed Bool.false_ne_true
  unfold World.stop
  split_ifs with hdisposed
  · exact ⟨hlive hdisposed, rfl, rfl⟩
  · obtain ⟨hfilter, hpending⟩ := s.queue.delete_spec s.cluster.timer.timerHandle
    refine ⟨?_, hpending, rfl⟩
    rw [hfilter]
    cases hfirst : s.cluster.first with
    | true => rw [h.idle hfirst, List.filter_nil]
    | false =>
      rw [h.timer hfirst, List.filter_eq_nil_iff]
      intro t ht
      simp [h.live_id t ht]

lemma flush_parts (s : System A τ ω) (timer : Option ℕ) :
    (s.flush d timer).queue = (World.stop ⟨s.cluster.timer, s.queue⟩).queue ∧
      (s.flush d timer).cluster.timer = (World.stop ⟨s.cluster.timer, s.queue⟩).timer ∧
      (s.flush d timer).cluster.milliseconds = s.cluster.milliseconds := by
  unfold flush TimeCluster.flushAndReset
  split_ifs <;> exact ⟨rfl, rfl, rfl⟩

lemma Held.of_stop {s s' : System A τ ω} (h : Held s) (hfirst : s'.cluster.first = true)
    (hqueue : s'.queue = (World.stop ⟨s.cluster.timer, s.queue⟩).queue)
    (htimer : s'.cluster.timer = (World.stop ⟨s.cluster.timer, s.queue⟩).timer) : Held s' := by
  obtain ⟨hlive, hpending, haction⟩ := h.stop
  constructor
  · intro _
    rw [hqueue, hlive]
  · intro hf
    simp [hfirst] at hf
  · intro t ht
    simp [hqueue, hlive] at ht
  · intro hne
    rw [hqueue, hpending] at hne
    rw [htimer, haction, h.called hne]

lemma held_flush {s : System A τ ω} (h : Held s) (timer : Option ℕ) : Held (s.flush d timer) := by
  obtain ⟨hqueue, htimer, -⟩ := s.flush_parts d timer
  exact h.of_stop (s.flush_spec d timer).2.1 hqueue htimer

lemma held_reset {s : System A τ ω} (h : Held s) : Held (s.reset d) :=
  h.of_stop rfl rfl rfl

lemma held_running {s : System A τ ω} (h : Held s) (id : ℕ) : Held (s.running id) where
  idle := h.idle
  timer := h.timer
  live_id := h.live_id
  called hne := h.called fun hnil => hne (by simp [running, hnil])

lemma held_push {s : System A τ ω} (h : Held s) (value : τ) (created : Bool) :
    Held (s.push value created) := by
  cases hf : s.cluster.first with
  | false =>
    obtain ⟨-, hfirst, ht, hq, -, -⟩ := s.push_next value created hf
    exact ⟨fun hidle => by simp [hfirst] at hidle, fun _ => by rw [ht, hq]; exact h.timer hf,
      by rw [hq]; exact h.live_id, by rw [ht, hq]; exact h.called⟩
  | true =>
    have hlive := h.idle hf
    cases created with
    | false =>
      obtain ⟨-, hfirst, hq, -, -⟩ := s.push_throw value hf
      refine ⟨fun _ => by rw [hq, hlive], fun hopen => by simp [hfirst] at hopen,
        by simp [hq, hlive], fun _ => ?_⟩
      simp [push, TimeCluster.call, hf, World.once, World.init]
    | true =>
      obtain ⟨-, hfirst, ha, hq, -, -⟩ := s.push_first value hf
      refine ⟨fun hidle => by simp [hfirst] at hidle, fun _ => ?_, ?_, fun _ => ha⟩
      · simp [push, TimeCluster.call, hf, World.once, World.init]
      · simp [hq, TimerQueue.create, hlive]

lemma held_expire {s : System A τ ω} (h : Held s) {id : ℕ} {queue : TimerQueue}
    (hq : s.queue.expire id = some queue) : Held { s with queue } := by
  unfold TimerQueue.expire at hq
  split_ifs at hq with harmed
  obtain rfl := Option.some.inj hq
  have hopen : s.cluster.first = false := by
    by_contra hfirst
    simp [h.idle (Bool.eq_true_of_not_eq_false hfirst)] at harmed
  constructor
  · intro hfirst
    simp [hopen] at hfirst
  · exact fun _ => h.timer hopen
  · intro t ht
    obtain ⟨u, hu, rfl⟩ := List.mem_map.mp ht
    split_ifs <;> exact h.live_id u hu
  · intro _
    show s.cluster.timer.action = some .flushAndReset
    rw [h.timer hopen]

lemma held_step {s s' : System A τ ω} {e : Event τ} (h : Held s) (hs : s.step d e = some s') :
    Held s' := by
  cases e with
  | push value created => cases hs; exact held_push h value created
  | expire id =>
    obtain ⟨queue, hq, rfl⟩ := step_expire d hs
    exact held_expire h hq
  | callback id =>
    obtain ⟨hpending, rfl⟩ := step_callback d hs
    rw [callback_flush d s id (h.called (List.ne_nil_of_mem hpending))]
    exact held_flush d (held_running h id) (some id)
  | flushAndReset => cases hs; exact held_flush d h none
  | reset => cases hs; exact held_reset d h

lemma flush_action (s : System A τ ω) (timer : Option ℕ) :
    (s.flush d timer).cluster.action = d.recorded.reset (if s.cluster.items.isEmpty then
        s.cluster.action else (d.recorded.call s.cluster.action s.cluster.items).1) ∧
      (s.flush d timer).received = s.received ++ (if s.cluster.items.isEmpty then [] else
        (d.recorded.call s.cluster.action s.cluster.items).2) := by
  unfold flush TimeCluster.flushAndReset
  split_ifs <;> exact ⟨rfl, rfl⟩

variable {s m : System A τ ω}

lemma Alike.stop (hs : Held s) (hm : Held m) (h : Alike s m) :
    (World.stop ⟨m.cluster.timer, m.queue⟩).queue.created =
        (World.stop ⟨s.cluster.timer, s.queue⟩).queue.created ∧
      (World.stop ⟨m.cluster.timer, m.queue⟩).queue.live =
        (World.stop ⟨s.cluster.timer, s.queue⟩).queue.live ∧
      (World.stop ⟨m.cluster.timer, m.queue⟩).queue.pending =
        (World.stop ⟨s.cluster.timer, s.queue⟩).queue.pending := by
  refine ⟨?_, ?_, ?_⟩
  · rw [World.stop_created, World.stop_created]
    exact h.created
  · rw [hs.stop.1, hm.stop.1]
  · rw [hs.stop.2.1, hm.stop.2.1, h.pending]

lemma alike_flush (hs : Held s) (hm : Held m) (h : Alike s m) (timer : Option ℕ) :
    Alike (s.flush d timer) (m.flush d timer) := by
  obtain ⟨hcreated, hlive, hpending⟩ := h.stop hs hm
  obtain ⟨hls, hfs, -, -, hds⟩ := s.flush_spec d timer
  obtain ⟨hlm, hfm, -, -, hdm⟩ := m.flush_spec d timer
  obtain ⟨has, hrs⟩ := s.flush_action d timer
  obtain ⟨ham, hrm⟩ := m.flush_action d timer
  have hqs := (s.flush_parts d timer).1
  have hqm := (m.flush_parts d timer).1
  have hdeliveries : m.deliveries = s.deliveries := congrArg Prod.fst h.downstream
  have hreceived : m.received = s.received := congrArg Prod.snd h.downstream
  constructor
  · rw [has, ham, h.action, h.items]
  · exact (congrArg Ledger.pending hlm).trans
      (congrArg Ledger.pending hls).symm
  · rw [hfs, hfm]
  · rw [hqs, hqm, hcreated]
  · rw [hqs, hqm, hlive]
  · rw [hqs, hqm, hpending]
  · exact h.pushed
  · rw [downstream, downstream, hds, hdm, hrs, hrm, hdeliveries, hreceived, h.action, h.items]

lemma alike_reset (hs : Held s) (hm : Held m) (h : Alike s m) : Alike (s.reset d) (m.reset d) := by
  obtain ⟨hcreated, hlive, hpending⟩ := h.stop hs hm
  constructor
  · exact congrArg d.recorded.reset h.action
  · rfl
  · rfl
  · exact hcreated
  · exact congrArg (List.map undated) hlive
  · exact hpending
  · exact h.pushed
  · exact h.downstream

lemma alike_running (h : Alike s m) (id : ℕ) : Alike (s.running id) (m.running id) :=
  { h with pending := congrArg (fun pending => pending.erase id) h.pending }

lemma push_action (s : System A τ ω) (value : τ) (created : Bool) :
    (s.push value created).cluster.action = s.cluster.action ∧
      (s.push value created).downstream = s.downstream := by
  refine ⟨?_, rfl⟩
  show (s.cluster.call s.queue created _).1.action = _
  unfold TimeCluster.call
  dsimp only
  split_ifs <;> rfl

/-- Clusters that differ in the delays take the same entry for the same value. -/
lemma Alike.enter (h : Alike s m) {s' m' : System A τ ω} {value : τ}
    (hs : s'.ledger = s.ledger.enter value) (hm : m'.ledger = m.ledger.enter value) :
    m'.cluster.items = s'.cluster.items ∧ m'.pushed = s'.pushed := by
  have hitems : (m.ledger.enter value).pending = (s.ledger.enter value).pending := by
    show m.cluster.items ++ [⟨value, m.pushed.length⟩] =
      s.cluster.items ++ [⟨value, s.pushed.length⟩]
    rw [h.items, h.pushed]
  have hpushed : (m.ledger.enter value).entered = (s.ledger.enter value).entered := by
    show m.pushed ++ [⟨value, m.pushed.length⟩] = s.pushed ++ [⟨value, s.pushed.length⟩]
    rw [h.pushed]
  rw [← hs, ← hm] at hitems hpushed
  exact ⟨hitems, hpushed⟩

lemma alike_push (h : Alike s m) (value : τ) (created : Bool) :
    Alike (s.push value created) (m.push value created) := by
  obtain ⟨has, hds⟩ := s.push_action value created
  obtain ⟨ham, hdm⟩ := m.push_action value created
  have haction : (m.push value created).cluster.action = (s.push value created).cluster.action := by
    rw [has, ham, h.action]
  have hdownstream : (m.push value created).downstream = (s.push value created).downstream := by
    rw [hds, hdm, h.downstream]
  cases hf : s.cluster.first with
  | false =>
    obtain ⟨hls, hfs, -, hqs, -, -⟩ := s.push_next value created hf
    obtain ⟨hlm, hfm, -, hqm, -, -⟩ := m.push_next value created (h.first.trans hf)
    obtain ⟨hitems, hpushed⟩ := h.enter hls hlm
    exact
      { action := haction
        items := hitems
        first := hfm.trans hfs.symm
        created := by rw [hqs, hqm, h.created]
        live := by rw [hqs, hqm, h.live]
        pending := by rw [hqs, hqm, h.pending]
        pushed := hpushed
        downstream := hdownstream }
  | true =>
    cases created with
    | false =>
      obtain ⟨hls, hfs, hqs, -, -⟩ := s.push_throw value hf
      obtain ⟨hlm, hfm, hqm, -, -⟩ := m.push_throw value (h.first.trans hf)
      exact
        { action := haction
          items := (congrArg Ledger.pending hlm).trans
            (h.items.trans (congrArg Ledger.pending hls).symm)
          first := hfm.trans hfs.symm
          created := by rw [hqs, hqm, h.created]
          live := by rw [hqs, hqm, h.live]
          pending := by rw [hqs, hqm, h.pending]
          pushed := (congrArg Ledger.entered hlm).trans
            (h.pushed.trans (congrArg Ledger.entered hls).symm)
          downstream := hdownstream }
    | true =>
      obtain ⟨hls, hfs, -, hqs, -, -⟩ := s.push_first value hf
      obtain ⟨hlm, hfm, -, hqm, -, -⟩ := m.push_first value (h.first.trans hf)
      obtain ⟨hitems, hpushed⟩ := h.enter hls hlm
      exact
        { action := haction
          items := hitems
          first := hfm.trans hfs.symm
          created := by simp [hqs, hqm, TimerQueue.create, h.created]
          live := by simp [hqs, hqm, TimerQueue.create, undated, h.live, h.created]
          pending := by simp [hqs, hqm, TimerQueue.create, h.pending]
          pushed := hpushed
          downstream := hdownstream }

lemma any_undated (live : List OsTimer) (id : ℕ) :
    (live.any fun t => t.id == id && t.armed) =
      (live.map undated).any fun u => u.1 == id && u.2.2 := by
  rw [List.any_map]
  rfl

lemma map_undated (live : List OsTimer) (id : ℕ) :
    (live.map fun t => if t.id = id then { t with armed := t.period != 0 } else t).map undated =
      (live.map undated).map fun u => if u.1 = id then (u.1, u.2.1, u.2.1 != 0) else u := by
  rw [List.map_map, List.map_map]
  apply List.map_congr_left
  intro t _
  by_cases hid : t.id = id
  · simp [undated, hid]
  · simp [undated, hid]

lemma alike_expire (h : Alike s m) {id : ℕ} {queue : TimerQueue}
    (hq : s.queue.expire id = some queue) :
    ∃ queue', m.queue.expire id = some queue' ∧
      Alike { s with queue } { m with queue := queue' } := by
  unfold TimerQueue.expire at hq ⊢
  rw [any_undated] at hq
  rw [any_undated, h.live]
  split_ifs at hq ⊢ with harmed
  obtain rfl := Option.some.inj hq
  refine ⟨_, rfl, { h with live := ?_, pending := ?_ }⟩
  · exact (map_undated _ id).trans ((congrArg _ h.live).trans (map_undated _ id).symm)
  · exact congrArg (fun pending => pending ++ [id]) h.pending

/-- The system that was moved takes every step of the other one. -/
lemma alike_step (hs : Held s) (hm : Held m) (h : Alike s m) {e : Event τ} {s' : System A τ ω}
    (hstep : s.step d e = some s') : ∃ m', m.step d e = some m' ∧ Alike s' m' := by
  cases e with
  | push value created =>
    cases hstep
    exact ⟨_, rfl, alike_push h value created⟩
  | expire id =>
    obtain ⟨queue, hq, rfl⟩ := step_expire d hstep
    obtain ⟨queue', hq', halike⟩ := alike_expire h hq
    exact ⟨_, by rw [step, hq', Option.map_some], halike⟩
  | callback id =>
    obtain ⟨hpending, rfl⟩ := step_callback d hstep
    have hpending' : id ∈ m.queue.pending := by
      rw [h.pending]
      exact hpending
    refine ⟨m.callback d id, if_pos hpending', ?_⟩
    rw [callback_flush d s id (hs.called (List.ne_nil_of_mem hpending)),
      callback_flush d m id (hm.called (List.ne_nil_of_mem hpending'))]
    exact alike_flush d (held_running hs id) (held_running hm id) (alike_running h id) (some id)
  | flushAndReset =>
    cases hstep
    exact ⟨_, rfl, alike_flush d hs hm h none⟩
  | reset =>
    cases hstep
    exact ⟨_, rfl, alike_reset d hs hm h⟩

lemma alike_run (hs : Held s) (hm : Held m) (h : Alike s m) {es : List (Event τ)}
    {s' : System A τ ω} (hrun : run (step d) s es = some s') :
    ∃ m', run (step d) m es = some m' ∧ Alike s' m' := by
  induction es generalizing s m with
  | nil =>
    cases hrun
    exact ⟨m, rfl, h⟩
  | cons e es ih =>
    obtain ⟨t, ht, hrest⟩ := Option.bind_eq_some_iff.mp hrun
    obtain ⟨u, hu, halike⟩ := alike_step d hs hm h ht
    obtain ⟨m', hm', hlast⟩ := ih (held_step d hs ht) (held_step d hm hu) halike hrest
    exact ⟨m', by rw [run_cons, hu, Option.bind_some, hm'], hlast⟩

lemma step_milliseconds {e : Event τ} {s' : System A τ ω} (h : s.step d e = some s') :
    s'.cluster.milliseconds = s.cluster.milliseconds := by
  cases e with
  | push value created =>
    cases h
    show (s.cluster.call s.queue created _).1.milliseconds = _
    unfold TimeCluster.call
    dsimp only
    split_ifs <;> rfl
  | expire id =>
    obtain ⟨queue, -, rfl⟩ := step_expire d h
    rfl
  | callback id =>
    obtain ⟨-, rfl⟩ := step_callback d h
    cases ha : s.cluster.timer.action with
    | some f =>
      rw [callback_flush d s id ha]
      exact ((s.running id).flush_parts d (some id)).2.2
    | none => rw [callback_skip d s id ha, running]
  | flushAndReset =>
    cases h
    exact (s.flush_parts d none).2.2
  | reset =>
    cases h
    rfl

/-- All delays of a run are the one of the cluster, and alike systems pass as many. -/
lemma alike_delays (hs : Held s) (hm : Held m) (h : Alike s m) {es : List (Event τ)}
    (hrun : (run (step d) s es).isSome) :
    ∃ n, s.delays d es = List.replicate n s.cluster.milliseconds.toUInt32 ∧
      m.delays d es = List.replicate n m.cluster.milliseconds.toUInt32 := by
  induction es generalizing s m with
  | nil => exact ⟨0, rfl, rfl⟩
  | cons e es ih =>
    obtain ⟨t, ht⟩ : ∃ t, s.step d e = some t := by
      cases ht : s.step d e with
      | none => simp [ht] at hrun
      | some t => exact ⟨t, rfl⟩
    obtain ⟨u, hu, halike⟩ := alike_step d hs hm h ht
    rw [run_cons, ht, Option.bind_some] at hrun
    obtain ⟨n, hsn, hmn⟩ := ih (held_step d hs ht) (held_step d hm hu) halike hrun
    rw [step_milliseconds d ht] at hsn
    rw [step_milliseconds d hu] at hmn
    simp only [delays, ht, hu, hsn, hmn, h.first]
    cases e with
    | push value created =>
      cases hf : s.cluster.first with
      | false => exact ⟨n, rfl, rfl⟩
      | true => exact ⟨n + 1, rfl, rfl⟩
    | expire id => exact ⟨n, rfl, rfl⟩
    | callback id => exact ⟨n, rfl, rfl⟩
    | flushAndReset => exact ⟨n, rfl, rfl⟩
    | reset => exact ⟨n, rfl, rfl⟩

/-- Where nothing is armed and the cluster has not begun, nothing but a push begins it. -/
lemma delays_eq_nil_iff (hs : Held s) (hfirst : s.cluster.first = true)
    (hpending : s.queue.pending = []) {es : List (Event τ)} (hrun : (run (step d) s es).isSome) :
    s.delays d es = [] ↔ ∀ value created, Event.push value created ∉ es := by
  induction es generalizing s with
  | nil => simp [delays]
  | cons e es ih =>
    obtain ⟨hlive, hstopped, -⟩ := hs.stop
    rw [hpending] at hstopped
    cases e with
    | push value created =>
      refine iff_of_false ?_ fun hpush => hpush value created List.mem_cons_self
      simp [delays, step, hfirst]
    | expire id => simp [step, TimerQueue.expire, hs.idle hfirst] at hrun
    | callback id => simp [step, hpending] at hrun
    | flushAndReset =>
      obtain ⟨hqueue, -, -⟩ := s.flush_parts d none
      have hrest := ih (held_flush d hs none) (s.flush_spec d none).2.1
        (by rw [hqueue, hstopped]) (by simpa [step] using hrun)
      simp [delays, step, hrest]
    | reset =>
      have hrest := ih (held_reset d hs) rfl hstopped (by simpa [step] using hrun)
      simp [delays, step, hrest]

/-- With nothing armed or pending, the items have been handed on. -/
lemma Idle.first {s : System A τ ω} (h : s.Idle) (hinv : Inv s) : s.cluster.first = true := by
  by_contra hfirst
  rcases hinv.awaited (Bool.eq_false_of_not_eq_true hfirst) with ⟨t, ht, -, harmed⟩ | hpending
  · rw [h.armed t ht] at harmed
    exact absurd harmed Bool.false_ne_true
  · rw [h.pending] at hpending
    exact absurd hpending List.not_mem_nil

lemma held_moved (hs : Held s) (hidle : s.Idle) (hfirst : s.cluster.first = true)
    (indeterminate : Int32) : Held (s.moved indeterminate) where
  idle _ := hs.idle hfirst
  timer hopen := absurd hopen (by simp [moved, TimeCluster.moved, hfirst])
  live_id := hs.live_id
  called hne := absurd hidle.pending hne

lemma alike_moved (s : System A τ ω) (indeterminate : Int32) : Alike s (s.moved indeterminate) := by
  constructor <;> rfl

lemma reachable_milliseconds {action : A} {milliseconds : Int32} {before : List (Event τ)}
    (hs : run (step d) (System.new τ action milliseconds) before = some s) :
    s.cluster.milliseconds = milliseconds :=
  run_invariant (I := fun t => t.cluster.milliseconds = milliseconds)
    (fun _ _ _ ht hstep => (step_milliseconds d hstep).trans ht) hs rfl

end System

lemma eq_of_toUInt32 {a b : Int32} (h : a.toUInt32 = b.toUInt32) : a = b := by
  cases a
  cases b
  exact congrArg Int32.ofUInt32 h

/-- When a stage that was moved reacts as before: a `Buffer`, a `Window` and the stages
around them always, a `TimeCluster` if what it finds in `milliseconds_` is the delay it was
built with, or if no item is pushed any more. -/
theorem moved_reacts_iff (action : A) (milliseconds : Int32) (before : List (Event τ))
    {s : System A τ ω} (hs : run (System.step d) (System.new τ action milliseconds) before = some s)
    (hidle : s.Idle) (indeterminate : Int32) (es : List (Event τ)) {s' : System A τ ω}
    (hrun : run (System.step d) s es = some s') :
    (∀ (ω' α : Type) (g : Growth) (o : Object ω' α) (events : List (Object.Event α)),
        o.moved.reactions g events = o.reactions g events) ∧
      ((∃ m', run (System.step d) (s.moved indeterminate) es = some m' ∧
          m'.downstream = s'.downstream ∧
          (s.moved indeterminate).delays d es = s.delays d es) ↔
        indeterminate = milliseconds ∨ ∀ value created, Event.push value created ∉ es) := by
  have hheld : s.Held :=
    run_invariant (fun _ _ _ h hstep => System.held_step d h hstep) hs
      (System.held_new action milliseconds)
  have hinv := System.inv_run d (System.inv_new action milliseconds) hs
  have hfirst := hidle.first hinv
  have hmoved := System.held_moved hheld hidle hfirst indeterminate
  have hmilliseconds := System.reachable_milliseconds d hs
  have hsome : (run (System.step d) s es).isSome := Option.isSome_of_eq_some hrun
  obtain ⟨m', hm', halike⟩ :=
    System.alike_run d hheld hmoved (System.alike_moved s indeterminate) hrun
  obtain ⟨n, hn, hn'⟩ :=
    System.alike_delays d hheld hmoved (System.alike_moved s indeterminate) hsome
  have hnil := System.delays_eq_nil_iff d hheld hfirst hidle.pending hsome
  refine ⟨fun ω' α g o events => by rw [o.moved_eq], ?_⟩
  rw [← hnil, hn, List.replicate_eq_nil_iff, hn', hmilliseconds]
  constructor
  · rintro ⟨-, -, -, hdelays⟩
    rcases Nat.eq_zero_or_pos n with hzero | hpos
    · exact .inr hzero
    · have hhead := List.eq_of_mem_replicate (hdelays ▸ List.mem_replicate.mpr ⟨hpos.ne', rfl⟩)
      exact .inl (eq_of_toUInt32 hhead)
  · intro hsame
    refine ⟨m', hm', halike.downstream, ?_⟩
    rcases hsame with heq | hzero
    · rw [← heq]
      rfl
    · rw [hzero, List.replicate_zero, List.replicate_zero]

/-- A cluster that has been flushed by its timer, moved with its delay as it was. -/
theorem moved_reacts_iff_flushed :
    ∃ s s', run (System.step (plainAction (List ℕ))) (System.new ℕ () 500)
        [.push 1 true, .expire 1, .callback 1] = some s ∧
      run (System.step (plainAction (List ℕ))) s [.push 2 true] = some s' ∧
      ∃ m', run (System.step (plainAction (List ℕ))) (s.moved 500) [.push 2 true] = some m' ∧
        m'.downstream = s'.downstream ∧
        (s.moved 500).delays (plainAction (List ℕ)) [.push 2 true] =
          s.delays (plainAction (List ℕ)) [.push 2 true] :=
  ⟨_, _, rfl, rfl, (moved_reacts_iff (plainAction (List ℕ)) () 500
    [.push 1 true, .expire 1, .callback 1] rfl ⟨fun _ ht => absurd ht List.not_mem_nil, rfl⟩ 500
    [.push 2 true] rfl).2.mpr (.inl rfl)⟩

/-- `time_cluster(500)` behind another stage, where a zero was found: the first push passes
no delay of 500 but one of 0. -/
theorem moved_delay :
    (System.moved 0 (System.new ℕ () 500 : System Unit ℕ (List ℕ))).delays (plainAction (List ℕ))
        [.push 1 true] = [0] ∧
      (System.new ℕ () 500 : System Unit ℕ (List ℕ)).delays (plainAction (List ℕ))
        [.push 1 true] ≠ [0] := by
  refine ⟨rfl, ?_⟩
  intro hzero
  have hdelay : (500 : UInt32) = 0 := List.head_eq_of_cons_eq hzero
  exact absurd hdelay (by decide)

end CppMisc.Stream
