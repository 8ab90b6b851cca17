import CppMisc.ClusterBetween
import CppMisc.StreamRecovery

/-! `TimeCluster` of `stream4.cc` over an action that may throw. The exception leaves
`flushAndReset()` before its `reset()`. A caller of `flushAndReset()` catches it and carries on;
behind a callback of the timer queue there is nobody to catch it, and the program ends. -/
namespace CppMisc.Stream
open BatchLedger Timers Runs

/-- What a cluster needs of a stage behind it that may throw: the flag says what the final action
does if it is called, and the last component whether an exception leaves the call. -/
structure Risky (A ι ω : Type*) where
  call : A → ι → Bool → A × List ω × Bool
  reset : A → A
  calm : ∀ a item throws, (call a item throws).2.2 = false →
    call a item throws = call a item false
  quiet : ∀ a item, (call a item false).2.2 = false

def riskyBehind {τ ω : Type} (g : Growth) : Risky (Object ω (List τ)) (List τ) ω where
  call o batch throws := o.tryCall g batch throws
  reset := Object.reset
  calm o batch throws h := by
    have hq := (o.tryCall_snd g batch false).2
    refine Prod.ext ?_ (Prod.ext ?_ (h.trans hq.symm))
    · rw [o.tryCall_quiet g batch throws h, o.tryCall_quiet g batch false hq]
    · rw [(o.tryCall_snd g batch throws).1, (o.tryCall_snd g batch false).1]
  quiet o batch := (o.tryCall_snd g batch false).2

namespace Risky

variable {A ι τ ω : Type*}

/-- The stage as long as the action throws nothing. -/
def downstream (d : Risky A ι ω) : Downstream A ι ω where
  call a item := ((d.call a item false).1, (d.call a item false).2.1)
  reset := d.reset

/-- With a record of the batches that the stage took. -/
def recorded (d : Risky A (List τ) ω) :
    Risky (A × List (List (Entry τ))) (List (Entry τ)) ω where
  call a batch throws :=
    let r := d.call a.1 (batch.map Entry.value) throws
    ((r.1, if r.2.2 then a.2 else a.2 ++ [batch]), r.2)
  reset a := (d.reset a.1, a.2)
  calm a batch throws h := by
    have hcalm := d.calm a.1 (batch.map Entry.value) throws h
    simp only [hcalm]
  quiet a batch := d.quiet a.1 (batch.map Entry.value)

lemma downstream_behind {τ ω : Type} (g : Growth) :
    (riskyBehind g : Risky (Object ω (List τ)) (List τ) ω).downstream = pipelineBehind g := by
  have hcall : ∀ (o : Object ω (List τ)) batch,
      ((o.tryCall g batch false).1, (o.tryCall g batch false).2.1) = o.call g batch :=
    fun o batch => Prod.ext (o.tryCall_quiet g batch false (o.tryCall_snd g batch false).2)
      (o.tryCall_snd g batch false).1
  simp only [downstream, riskyBehind, pipelineBehind, hcall]

lemma recorded_downstream (d : Risky A (List τ) ω) :
    d.recorded.downstream = d.downstream.recorded := by
  simp [downstream, recorded, Downstream.recorded, d.quiet]

end Risky

/-- `flushAndReset()`; the last component says whether an exception leaves it. -/
def TimeCluster.tryFlushAndReset {A τ ω : Type*} (d : Risky A (List τ) ω) (c : TimeCluster A τ)
    (queue : TimerQueue) (throws : Bool) : TimeCluster A τ × TimerQueue × List ω × Bool :=
  if c.items.isEmpty then
    let r := c.reset d.downstream queue
    (r.1, r.2, [], false)
  else
    let a := d.call c.action c.items throws
    if a.2.2 then ({ c with action := a.1 }, queue, a.2)
    else
      let r := TimeCluster.reset d.downstream { c with action := a.1 } queue
      (r.1, r.2, a.2)

lemma TimeCluster.tryFlushAndReset_quiet {A τ ω : Type*} (d : Risky A (List τ) ω)
    (c : TimeCluster A τ) (queue : TimerQueue) (throws : Bool)
    (h : (c.tryFlushAndReset d queue throws).2.2.2 = false) :
    c.tryFlushAndReset d queue throws =
      ((c.flushAndReset d.downstream queue).1, (c.flushAndReset d.downstream queue).2.1,
        (c.flushAndReset d.downstream queue).2.2, false) := by
  unfold tryFlushAndReset flushAndReset at *
  cases hitems : c.items.isEmpty with
  | true => simp
  | false =>
    cases hthrown : (d.call c.action c.items throws).2.2 with
    | true => simp [hitems, hthrown] at h
    | false =>
      have hcalm := d.calm _ _ _ hthrown
      have hpair : (d.call c.action c.items false).2 =
          ((d.call c.action c.items false).2.1, false) := Prod.ext rfl (d.quiet _ _)
      simp [hcalm, Risky.downstream, d.quiet, ← hpair]

/-- A cluster, the batches that its action threw on, and whether that has ended the program. -/
structure Trying (A τ ω : Type*) where
  system : System A τ ω
  failed : List (List (Entry τ))
  terminated : Bool

namespace Trying

inductive Event (τ : Type*)
  | push (value : τ) (created : Bool)
  | expire (id : ℕ)
  | callback (id : ℕ) (throws : Bool)
  | flushAndReset (throws : Bool)
  | reset
  deriving DecidableEq, Repr

variable {A τ ω : Type*} (d : Risky A (List τ) ω)

def new (τ : Type*) {A ω : Type*} (action : A) (milliseconds : Int32) : Trying A τ ω :=
  ⟨System.new τ action milliseconds, [], false⟩

def flush (s : Trying A τ ω) (timer : Option ℕ) (throws : Bool) : Trying A τ ω × Bool :=
  let r := s.system.cluster.tryFlushAndReset d.recorded s.system.queue throws
  ({ s with
      system := { s.system with
        cluster := r.1
        queue := r.2.1
        deliveries := s.system.deliveries ++
          (r.1.action.2.drop s.system.handed.length).map (Delivery.mk timer)
        received := s.system.received ++ r.2.2.1 }
      failed := if r.2.2.2 then s.failed ++ [s.system.cluster.items] else s.failed },
    r.2.2.2)

/-- The queue runs a callback, and what it throws ends the program. -/
def callback (s : Trying A τ ω) (id : ℕ) (throws : Bool) : Trying A τ ω :=
  let s := { s with system := s.system.running id }
  match timerTick (some s.system.cluster.timer) true with
  | some Callback.flushAndReset =>
      let r := s.flush d (some id) throws
      { r.1 with terminated := r.2 }
  | none => s

def step (s : Trying A τ ω) (e : Event τ) : Option (Trying A τ ω) :=
  if s.terminated then none
  else match e with
    | .push value created => some { s with system := s.system.push value created }
    | .expire id => (s.system.queue.expire id).map fun queue =>
        { s with system := { s.system with queue } }
    | .callback id throws =>
        if id ∈ s.system.queue.pending then some (s.callback d id throws) else none
    | .flushAndReset throws => some (s.flush d none throws).1
    | .reset => some { s with system := s.system.reset d.downstream }

/-! What a flush does, whether the action throws or not. -/

lemma flush_quiet (s : Trying A τ ω) (timer : Option ℕ) (throws : Bool)
    (h : (s.flush d timer throws).2 = false) :
    (s.flush d timer throws).1 = { s with system := s.system.flush d.downstream timer } := by
  have hflush := s.system.cluster.tryFlushAndReset_quiet d.recorded s.system.queue throws h
  simp only [flush, hflush, System.flush, d.recorded_downstream]
  simp

/-- An exception leaves the cluster, its timer and the queue as they were. -/
lemma flush_thrown (s : Trying A τ ω) (timer : Option ℕ) (throws : Bool)
    (h : (s.flush d timer throws).2 = true) :
    s.system.cluster.items ≠ [] ∧
      (s.flush d timer throws).1.system.ledger = s.system.ledger ∧
      (s.flush d timer throws).1.system.cluster.first = s.system.cluster.first ∧
      (s.flush d timer throws).1.system.cluster.timer = s.system.cluster.timer ∧
      (s.flush d timer throws).1.system.queue = s.system.queue ∧
      (s.flush d timer throws).1.failed = s.failed ++ [s.system.cluster.items] := by
  simp only [flush, TimeCluster.tryFlushAndReset] at h
  cases hitems : s.system.cluster.items.isEmpty with
  | true => simp [hitems] at h
  | false =>
    cases hthrown : (d.recorded.call s.system.cluster.action s.system.cluster.items throws).2.2 with
    | false => simp [hitems, hthrown] at h
    | true =>
      refine ⟨List.isEmpty_eq_false_iff.mp hitems, ?_⟩
      have hrecord : (d.recorded.call s.system.cluster.action s.system.cluster.items throws).1.2 =
          s.system.cluster.action.2 := if_pos hthrown
      simp [flush, TimeCluster.tryFlushAndReset, hitems, hthrown, System.ledger, System.handed,
        hrecord]

end Trying

namespace System

variable {A τ ω : Type*}

lemma push_ledger (s : System A τ ω) (value : τ) (created : Bool) :
    (s.push value created).ledger = s.ledger ∨
      (s.push value created).ledger = s.ledger.enter value := by
  cases hf : s.cluster.first with
  | false => exact .inr (s.push_next value created hf).1
  | true =>
    cases created with
    | false => exact .inl (s.push_throw value hf).1
    | true => exact .inr (s.push_first value hf).1

/-- The invariant is about the ledger, the timer and the queue. -/
lemma Inv.of_eq {s t : System A τ ω} (h : s.Inv) (hl : t.ledger = s.ledger)
    (hf : t.cluster.first = s.cluster.first) (ht : t.cluster.timer = s.cluster.timer)
    (hq : t.queue = s.queue) : t.Inv where
  balanced := hl ▸ h.balanced
  timer_action hfirst := by rw [ht]; exact h.timer_action (hf ▸ hfirst)
  awaited hfirst := by rw [hq]; exact h.awaited (hf ▸ hfirst)
  items_open hne := by
    have hitems : t.cluster.items = s.cluster.items := congrArg Ledger.pending hl
    rw [hf]
    exact h.items_open (hitems ▸ hne)

end System

namespace Trying

variable {A τ ω : Type*} (d : Risky A (List τ) ω)

/-- The items are accounted for by what the action has taken, and every batch that it threw on is
retained. -/
structure Accounted (s : Trying A τ ω) : Prop where
  balanced : s.system.ledger.Balanced
  failed_ne : ∀ batch ∈ s.failed, batch ≠ []
  failed : ∀ batch ∈ s.failed, s.system.ledger.Retained batch

lemma Accounted.of_ledger {s t : Trying A τ ω} (h : s.Accounted)
    (hl : t.system.ledger = s.system.ledger) (hf : t.failed = s.failed) : t.Accounted where
  balanced := hl ▸ h.balanced
  failed_ne := hf ▸ h.failed_ne
  failed := by rw [hl, hf]; exact h.failed

lemma Accounted.flush {s : Trying A τ ω} (h : s.Accounted) (timer : Option ℕ) (throws : Bool) :
    (s.flush d timer throws).1.Accounted := by
  cases hthrown : (s.flush d timer throws).2 with
  | false =>
    rw [flush_quiet d s timer throws hthrown]
    obtain ⟨hl, -⟩ := s.system.flush_spec d.downstream timer
    exact
      { balanced := hl ▸ h.balanced.flush
        failed_ne := h.failed_ne
        failed := fun batch hb => hl ▸ (h.failed batch hb).flush (h.failed_ne batch hb) }
  | true =>
    obtain ⟨hne, hl, -, -, -, hfailed⟩ := flush_thrown d s timer throws hthrown
    have hretained := s.system.ledger.retained_pending
    refine ⟨hl ▸ h.balanced, ?_, ?_⟩
    · rw [hfailed, List.forall_mem_append, List.forall_mem_singleton]
      exact ⟨h.failed_ne, hne⟩
    · rw [hfailed, hl, List.forall_mem_append, List.forall_mem_singleton]
      exact ⟨h.failed, hretained⟩

/-- What holds in every state: the account, and the timer of what waits until the program ends. -/
structure Inv (s : Trying A τ ω) : Prop where
  accounted : s.Accounted
  system : s.terminated = false → s.system.Inv

lemma inv_new (action : A) (milliseconds : Int32) :
    (new τ action milliseconds : Trying A τ ω).Inv where
  accounted := ⟨Ledger.balanced_empty, by simp [new], by simp [new]⟩
  system _ := System.inv_new action milliseconds

lemma inv_flush {s : Trying A τ ω} (h : s.Inv) (ht : s.terminated = false) (throws : Bool) :
    (s.flush d none throws).1.Inv := by
  refine ⟨h.accounted.flush d none throws, fun _ => ?_⟩
  cases hthrown : (s.flush d none throws).2 with
  | false =>
    rw [flush_quiet d s none throws hthrown]
    exact System.inv_flush d.downstream h.accounted.balanced none
  | true =>
    obtain ⟨-, hl, hf, htimer, hq, -⟩ := flush_thrown d s none throws hthrown
    exact (h.system ht).of_eq hl hf htimer hq

lemma inv_callback {s : Trying A τ ω} (h : s.Inv) (ht : s.terminated = false) (id : ℕ)
    (throws : Bool) : (s.callback d id throws).Inv := by
  let r : Trying A τ ω := { s with system := s.system.running id }
  have hr : r.Accounted := h.accounted.of_ledger rfl rfl
  cases ha : s.system.cluster.timer.action with
  | none =>
    have hskip : s.callback d id throws = r := by
      simp [callback, System.running, timerTick, Timer.tick, ha, r]
    have hinv := System.inv_callback d.downstream (h.system ht) id
    rw [System.callback_skip d.downstream s.system id ha] at hinv
    rw [hskip]
    exact ⟨hr, fun _ => hinv⟩
  | some f =>
    have hflush : s.callback d id throws =
        { (r.flush d (some id) throws).1 with terminated := (r.flush d (some id) throws).2 } := by
      simp [callback, System.running, timerTick, Timer.tick, ha, r]
    rw [hflush]
    refine ⟨(hr.flush d (some id) throws).of_ledger rfl rfl, fun hthrown => ?_⟩
    simp only at hthrown
    rw [flush_quiet d r (some id) throws hthrown]
    exact System.inv_flush d.downstream hr.balanced (some id)

lemma inv_step {s s' : Trying A τ ω} {e : Event τ} (h : s.Inv) (hs : s.step d e = some s') :
    s'.Inv := by
  unfold step at hs
  split_ifs at hs with hterminated
  have ht : s.terminated = false := by simpa using hterminated
  have hinv := h.system ht
  cases e with
  | push value created =>
    obtain rfl := Option.some.inj hs
    refine ⟨?_, fun _ => System.inv_push hinv value created⟩
    rcases s.system.push_ledger value created with hl | hl
    · exact h.accounted.of_ledger hl rfl
    · exact
        { balanced := hl ▸ h.accounted.balanced.enter value
          failed_ne := h.accounted.failed_ne
          failed := fun batch hb => hl ▸ (h.accounted.failed batch hb).enter value }
  | expire id =>
    obtain ⟨queue, hq, rfl⟩ := Option.map_eq_some_iff.mp hs
    refine ⟨h.accounted.of_ledger rfl rfl, fun _ => ?_⟩
    exact System.inv_step d.downstream hinv (e := .expire id) (by simp [System.step, hq])
  | callback id throws =>
    simp only at hs
    split_ifs at hs
    obtain rfl := Option.some.inj hs
    exact inv_callback d h ht id throws
  | flushAndReset throws =>
    obtain rfl := Option.some.inj hs
    exact inv_flush d h ht throws
  | reset =>
    obtain rfl := Option.some.inj hs
    obtain ⟨hl, -⟩ := s.system.reset_spec d.downstream
    refine ⟨?_, fun _ => System.inv_reset d.downstream hinv⟩
    exact
      { balanced := hl ▸ h.accounted.balanced.discard
        failed_ne := h.accounted.failed_ne
        failed := fun batch hb => hl ▸ (h.accounted.failed batch hb).discard }

lemma inv_run {s s' : Trying A τ ω} {es : List (Event τ)} (h : s.Inv)
    (hs : run (step d) s es = some s') : s'.Inv :=
  run_invariant (fun _ _ _ hi hst => inv_step d hi hst) hs h

lemma flush_false (s : Trying A τ ω) (timer : Option ℕ) : (s.flush d timer false).2 = false := by
  simp only [flush, TimeCluster.tryFlushAndReset]
  cases hitems : s.system.cluster.items.isEmpty with
  | true => simp
  | false => simp [d.recorded.quiet]

/-- As long as the action throws nothing, a callback is that of the cluster. -/
lemma callback_false {s : Trying A τ ω} (ht : s.terminated = false) (id : ℕ) :
    s.callback d id false = { s with system := s.system.callback d.downstream id } := by
  cases ha : s.system.cluster.timer.action with
  | none =>
    rw [System.callback_skip d.downstream s.system id ha]
    simp [callback, System.running, timerTick, Timer.tick, ha]
  | some f =>
    let r : Trying A τ ω := { s with system := s.system.running id }
    have hquiet := flush_quiet d r (some id) false (flush_false d r (some id))
    rw [System.callback_flush d.downstream s.system id ha]
    have hcallback : s.callback d id false = { (r.flush d (some id) false).1 with
        terminated := (r.flush d (some id) false).2 } := by
      simp [callback, System.running, timerTick, Timer.tick, ha, r]
    rw [hcallback, flush_false, hquiet, ← ht]

/-- Only a callback whose batch is thrown on ends the program. -/
lemma terminated_step {s s' : Trying A τ ω} {e : Event τ} (hs : s.step d e = some s')
    (h : s'.terminated = true) : ∃ id, e = .callback id true := by
  unfold step at hs
  split_ifs at hs with hterminated
  have ht : s.terminated = false := by simpa using hterminated
  cases e with
  | push value created =>
    obtain rfl := Option.some.inj hs
    exact absurd h hterminated
  | expire id =>
    obtain ⟨queue, -, rfl⟩ := Option.map_eq_some_iff.mp hs
    exact absurd h hterminated
  | callback id throws =>
    simp only at hs
    split_ifs at hs
    obtain rfl := Option.some.inj hs
    cases throws with
    | true => exact ⟨id, rfl⟩
    | false =>
      rw [callback_false d ht] at h
      exact absurd h hterminated
  | flushAndReset throws =>
    obtain rfl := Option.some.inj hs
    exact absurd h hterminated
  | reset =>
    obtain rfl := Option.some.inj hs
    exact absurd h hterminated

def Event.ofTick : Tick → Event τ
  | .expire id => .expire id
  | .callback id => .callback id false

lemma run_ticks {s : Trying A τ ω} (ht : s.terminated = false) {t : System A τ ω}
    {ticks : List Tick}
    (h : run (System.step d.downstream) s.system (ticks.map Tick.event) = some t) :
    run (step d) s (ticks.map Event.ofTick) = some { s with system := t } := by
  induction ticks generalizing s with
  | nil =>
    obtain rfl := Option.some.inj h
    rfl
  | cons tick ticks ih =>
    obtain ⟨u, hu, hrest⟩ := Option.bind_eq_some_iff.mp h
    have hstep : s.step d (Event.ofTick tick) = some { s with system := u } := by
      rw [step.eq_def, if_neg (by simp [ht])]
      cases tick with
      | expire id =>
        obtain ⟨queue, hqueue, rfl⟩ := System.step_expire d.downstream hu
        simp [Event.ofTick, hqueue]
      | callback id =>
        obtain ⟨hid, rfl⟩ := System.step_callback d.downstream hu
        simp [Event.ofTick, hid, callback_false d ht]
    rw [List.map_cons, run_cons, hstep, Option.bind_some]
    exact ih (s := { s with system := u }) ht hrest

/-- A cluster whose action throws on any of the batches. In every state that a run leads to, the
batches that the action took and `items_` are the items pushed but for those that a `reset()`
found; a batch that it threw on begins one of these or was discarded; what waits has a timer
until the program ends; and only a callback ends it. -/
theorem failed_retained (action : A) (milliseconds : Int32) {es : List (Event τ)} {s : Trying A τ ω}
    (h : run (step d) (new τ action milliseconds) es = some s) :
    (∀ batch ∈ s.system.handed, batch ≠ []) ∧
      s.system.handed.flatten ++ s.system.cluster.items =
        s.system.pushed.filter (fun e => decide (e.serial ∉ s.system.discarded)) ∧
      (∀ batch ∈ s.failed, batch ≠ [] ∧ (batch <+: s.system.cluster.items ∨
        (∃ later ∈ s.system.handed, batch <+: later) ∨
        ∀ e ∈ batch, e.serial ∈ s.system.discarded)) ∧
      (s.terminated = false → s.system.cluster.items ≠ [] →
        s.system.cluster.first = false ∧ System.Awaited s.system.queue) ∧
      (s.terminated = true → ∃ es' id, es = es' ++ [.callback id true]) := by
  have hinv := inv_run d (inv_new action milliseconds) h
  refine ⟨hinv.accounted.balanced.batch_ne, hinv.accounted.balanced.account, ?_, ?_, ?_⟩
  · exact fun batch hb => ⟨hinv.accounted.failed_ne batch hb, hinv.accounted.failed batch hb⟩
  · intro ht hne
    have hfirst := (hinv.system ht).items_open hne
    exact ⟨hfirst, (hinv.system ht).awaited hfirst⟩
  · intro ht
    rcases List.eq_nil_or_concat es with rfl | ⟨es', e, rfl⟩
    · obtain rfl := Option.some.inj h
      cases ht
    · rw [List.concat_eq_append, run_append] at h
      obtain ⟨t, -, hlast⟩ := Option.bind_eq_some_iff.mp h
      obtain ⟨u, hu, hrest⟩ := Option.bind_eq_some_iff.mp hlast
      obtain rfl := Option.some.inj hrest
      obtain ⟨id, rfl⟩ := terminated_step d hu ht
      exact ⟨es', id, List.concat_eq_append⟩

/-- `time_cluster(500) >> where(not empty)`. The action throws on the first batch, which a caller
flushes, and on the third, which a callback does. -/
def throwingRun : List (Event ℕ) :=
  [.push 1 true, .push 2 true, .flushAndReset true, .push 3 true, .expire 1, .callback 1 false,
    .push 4 true, .expire 2, .callback 2 true]

theorem failed_retained_twice :
    ∃ s, run (step (riskyBehind doubling)) (new ℕ (Between.nonEmpty.build .action).moved 500)
        throwingRun = some s ∧
      s.failed = [[⟨1, 0⟩, ⟨2, 1⟩], [⟨4, 3⟩]] ∧ s.system.received = [[1, 2], [1, 2, 3], [4]] ∧
      s.system.handed.flatten ++ s.system.cluster.items = [⟨1, 0⟩, ⟨2, 1⟩, ⟨3, 2⟩, ⟨4, 3⟩] := by
  obtain ⟨s, hs, hfailed, hreceived, hpushed, hdiscarded⟩ :
      ∃ s, run (step (riskyBehind doubling)) (new ℕ (Between.nonEmpty.build .action).moved 500)
          throwingRun = some s ∧
        s.failed = [[⟨1, 0⟩, ⟨2, 1⟩], [⟨4, 3⟩]] ∧ s.system.received = [[1, 2], [1, 2, 3], [4]] ∧
        s.system.pushed = [⟨1, 0⟩, ⟨2, 1⟩, ⟨3, 2⟩, ⟨4, 3⟩] ∧ s.system.discarded = [] :=
    ⟨_, rfl, rfl, rfl, rfl, rfl⟩
  have h := (failed_retained (riskyBehind doubling) _ 500 hs).2.1
  rw [hpushed, hdiscarded] at h
  exact ⟨s, hs, hfailed, hreceived, h.trans (by decide)⟩

/-- As long as the program runs, the timers alone can bring everything out: all that was pushed
and not discarded is then taken, and so is every batch that was thrown on before. -/
theorem failed_retried (action : A) (milliseconds : Int32) {es : List (Event τ)} {s : Trying A τ ω}
    (h : run (step d) (new τ action milliseconds) es = some s) (ht : s.terminated = false) :
    ∃ (ticks : List Tick) (s' : Trying A τ ω),
      run (step d) s (ticks.map Event.ofTick) = some s' ∧ s'.terminated = false ∧
        s'.failed = s.failed ∧
        s'.system.handed.flatten =
          s.system.pushed.filter (fun e => decide (e.serial ∉ s.system.discarded)) ∧
        ∀ batch ∈ s.failed, (∃ later ∈ s'.system.handed, batch <+: later) ∨
          ∀ e ∈ batch, e.serial ∈ s.system.discarded := by
  have hinv := inv_run d (inv_new action milliseconds) h
  obtain ⟨ticks, t, hrun, hnil, hpushed, hdiscarded⟩ :=
    System.exists_flushed d.downstream (hinv.system ht)
  have hrun' := run_ticks d ht hrun
  have hinv' := inv_run d hinv hrun'
  refine ⟨ticks, _, hrun', ht, rfl, ?_, fun batch hb => ?_⟩
  · have haccount : t.handed.flatten ++ t.cluster.items =
        t.pushed.filter fun e => decide (e.serial ∉ t.discarded) :=
      hinv'.accounted.balanced.account
    rw [hnil, List.append_nil, hpushed, hdiscarded] at haccount
    exact haccount
  · have hretained : batch <+: t.cluster.items ∨ (∃ later ∈ t.handed, batch <+: later) ∨
        ∀ e ∈ batch, e.serial ∈ t.discarded := hinv'.accounted.failed batch hb
    rw [hnil, List.prefix_nil, hdiscarded] at hretained
    exact hretained.resolve_left (hinv.accounted.failed_ne batch hb)

theorem failed_retried_once :
    ∃ s, run (step (riskyBehind doubling)) (new ℕ (Between.nonEmpty.build .action).moved 500)
        [.push 1 true, .flushAndReset true] = some s ∧
      ∃ (ticks : List Tick) (s' : Trying (Object (List ℕ) (List ℕ)) ℕ (List ℕ)),
        run (step (riskyBehind doubling)) s (ticks.map Event.ofTick) = some s' ∧
          s'.failed = [[⟨1, 0⟩]] ∧ s'.system.handed.flatten = [⟨1, 0⟩] := by
  obtain ⟨s, hs, ht, hfailed, hpushed, hdiscarded⟩ :
      ∃ s, run (step (riskyBehind doubling)) (new ℕ (Between.nonEmpty.build .action).moved 500)
          [.push 1 true, .flushAndReset true] = some s ∧ s.terminated = false ∧
        s.failed = [[⟨1, 0⟩]] ∧ s.system.pushed = [⟨1, 0⟩] ∧ s.system.discarded = [] :=
    ⟨_, rfl, rfl, rfl, rfl, rfl⟩
  obtain ⟨ticks, s', hrun, -, hfailed', hhanded, -⟩ :=
    failed_retried (riskyBehind doubling) _ 500 hs ht
  rw [hpushed, hdiscarded] at hhanded
  exact ⟨s, hs, ticks, s', hrun, hfailed'.trans hfailed, hhanded.trans (by decide)⟩

end Trying

end CppMisc.Stream
