import CppMisc.ClusterPipeline
import CppMisc.StreamThreads
import CppMisc.TimerLifetime

/-! `S1 >> ... >> Sk >> time_cluster >> T1 >> ... >> Tl >> action`. The stages in front call the
cluster with what they hand on, and a `reset()` on the head comes to it where all of them pass it
on. The move of the cluster into a stage leaves `milliseconds_` open, so it is any number. -/
namespace CppMisc.Stream
open BatchLedger Timers Runs

/-- The stages in front, whose action stands for the cluster, and the cluster. -/
structure Between (A : Type*) (α τ ω : Type) where
  front : Object τ α
  system : System A τ ω

/-- A `reset()` comes to the action. -/
def Object.resets {ω α : Type} : Object ω α → Bool
  | .action => true
  | .where_ _ _ => false
  | .select _ _ => false
  | .buffer inner _ => inner.resets
  | .window inner _ => inner.resets

namespace Between

inductive Event (α : Type)
  | push (item : α)
  | reset
  | expire (id : ℕ)
  | callback (id : ℕ)
  deriving DecidableEq, Repr

def Event.op {α : Type} : Event α → Option (Op α)
  | .push item => some (.push item)
  | .reset => some .reset
  | .expire _ => none
  | .callback _ => none

/-- What the timers do by themselves. -/
def Event.timed {α : Type} : Event α → Bool
  | .push _ => false
  | .reset => false
  | .expire _ => true
  | .callback _ => true

variable {A : Type*} {α τ ω : Type} (g : Growth) (d : Downstream A (List τ) ω)

def new (p : Pipeline α τ) (action : A) (milliseconds : Int32) : Between A α τ ω :=
  ⟨p.build .action, System.new τ action milliseconds⟩

/-- The system creates all timers that it is asked for, so that nothing throws. -/
def step (s : Between A α τ ω) : Event α → Option (Between A α τ ω)
  | .push item =>
      let r := s.front.call g item
      some ⟨r.1, r.2.foldl (fun system t => system.push t true) s.system⟩
  | .reset => some ⟨s.front.reset, if s.front.resets then s.system.reset d else s.system⟩
  | .expire id => (s.system.step d (.expire id)).map fun system => { s with system }
  | .callback id => (s.system.step d (.callback id)).map fun system => { s with system }

end Between

/-- What the timers do by themselves. -/
inductive Tick
  | expire (id : ℕ)
  | callback (id : ℕ)

def Tick.event {τ : Type*} : Tick → Event τ
  | .expire id => .expire id
  | .callback id => .callback id

namespace System

variable {A τ ω : Type*} (d : Downstream A (List τ) ω)

lemma push_pushed (s : System A τ ω) (value : τ) :
    (s.push value true).pushed = s.pushed ++ [⟨value, s.pushed.length⟩] ∧
      (s.push value true).discarded = s.discarded := by
  cases hf : s.cluster.first with
  | true =>
    obtain ⟨hl, -⟩ := s.push_first value hf
    exact ⟨congrArg Ledger.entered hl, congrArg Ledger.discarded hl⟩
  | false =>
    obtain ⟨hl, -⟩ := s.push_next value true hf
    exact ⟨congrArg Ledger.entered hl, congrArg Ledger.discarded hl⟩

/-- Pushing what the front hands on is a run of the cluster. -/
lemma run_pushes (values : List τ) (s : System A τ ω) :
    run (step d) s (values.map fun t => .push t true) =
        some (values.foldl (fun system t => system.push t true) s) ∧
      (values.foldl (fun system t => system.push t true) s).pushed.map Entry.value =
        s.pushed.map Entry.value ++ values ∧
      (values.foldl (fun system t => system.push t true) s).discarded = s.discarded := by
  induction values generalizing s with
  | nil => simp
  | cons t values ih =>
    obtain ⟨hrun, hpushed, hdiscarded⟩ := ih (s.push t true)
    obtain ⟨hp, hd⟩ := s.push_pushed t
    refine ⟨?_, ?_, ?_⟩
    · rw [List.map_cons, run_cons, step, Option.bind_some, hrun, List.foldl_cons]
    · rw [List.foldl_cons, hpushed, hp]
      simp
    · rw [List.foldl_cons, hdiscarded, hd]

lemma callback_pushed (s : System A τ ω) (id : ℕ) :
    (s.callback d id).pushed = s.pushed ∧ (s.callback d id).discarded = s.discarded := by
  cases ha : s.cluster.timer.action with
  | none =>
    rw [callback_skip d s id ha]
    exact ⟨rfl, rfl⟩
  | some f =>
    rw [callback_flush d s id ha]
    obtain ⟨hl, -⟩ := (s.running id).flush_spec d (some id)
    exact ⟨congrArg Ledger.entered hl, congrArg Ledger.discarded hl⟩

lemma step_callback_flush {s : System A τ ω} {id : ℕ} (hid : id ∈ s.queue.pending)
    (ha : s.cluster.timer.action = some .flushAndReset) :
    ∃ s', s.step d (.callback id) = some s' ∧ s'.cluster.items = [] ∧
      s'.pushed = s.pushed ∧ s'.discarded = s.discarded := by
  refine ⟨s.callback d id, if_pos hid, ?_, s.callback_pushed d id⟩
  rw [callback_flush d s id ha]
  exact congrArg Ledger.pending ((s.running id).flush_spec d (some id)).1

/-- What waits for a timer gets out, by the timers alone. -/
lemma exists_flushed {s : System A τ ω} (h : s.Inv) :
    ∃ (ticks : List Tick) (s' : System A τ ω),
      run (step d) s (ticks.map Tick.event) = some s' ∧ s'.cluster.items = [] ∧
        s'.pushed = s.pushed ∧ s'.discarded = s.discarded := by
  by_cases hitems : s.cluster.items = []
  · exact ⟨[], s, rfl, hitems, rfl, rfl⟩
  have hfirst := h.items_open hitems
  have haction := h.timer_action hfirst
  rcases h.awaited hfirst with ⟨t, ht, -, harmed⟩ | hpending
  · obtain ⟨queue, hqueue, hpending⟩ := Lifetime.expire_armed ht harmed
    let u : System A τ ω := { s with queue }
    have hexpire : s.step d (.expire t.id) = some u := by simp [step, hqueue, u]
    have hid : t.id ∈ u.queue.pending := by simp [u, hpending]
    obtain ⟨s', hs', hkept⟩ := step_callback_flush d hid haction
    refine ⟨[.expire t.id, .callback t.id], s', ?_, hkept⟩
    rw [List.map_cons, run_cons, Tick.event, hexpire, Option.bind_some, List.map_singleton,
      run_cons, Tick.event, hs', Option.bind_some, run_nil]
  · obtain ⟨s', hs', hkept⟩ := step_callback_flush d hpending haction
    refine ⟨[.callback s.queue.created], s', ?_, hkept⟩
    rw [List.map_singleton, run_cons, Tick.event, hs', Option.bind_some, run_nil]

end System

namespace Between

variable {A : Type*} {α τ ω : Type} (g : Growth) (d : Downstream A (List τ) ω)

/-- What a run of the whole with these calls on the head is for the cluster: a run of its own, in
which it is pushed what the stages in front hand on. -/
structure Matches (s s' : Between A α τ ω) (ops : List (Op α))
    (fs : List (Stream.Event τ)) : Prop where
  run : run (System.step d) s.system fs = some s'.system
  front : s'.front = (s.front.applyAll g ops).1
  pushed : s'.system.pushed.map Entry.value =
    s.system.pushed.map Entry.value ++ (s.front.applyAll g ops).2
  untouched : .reset ∉ ops → s'.system.discarded = s.system.discarded ∧ ∀ f ∈ fs, f ≠ .reset

lemma Matches.refl (s : Between A α τ ω) : Matches g d s s [] [] :=
  ⟨rfl, rfl, by simp [Object.applyAll], fun _ => ⟨rfl, by simp⟩⟩

variable {g d} in
lemma Matches.trans {s s' s'' : Between A α τ ω} {ops ops' : List (Op α)}
    {fs fs' : List (Stream.Event τ)} (h : Matches g d s s' ops fs)
    (h' : Matches g d s' s'' ops' fs') : Matches g d s s'' (ops ++ ops') (fs ++ fs') where
  run := by rw [run_append, h.run, Option.bind_some, h'.run]
  front := by rw [h'.front, h.front, Object.applyAll_append]
  pushed := by rw [h'.pushed, h.pushed, h.front, Object.applyAll_append, List.append_assoc]
  untouched hreset := by
    rw [List.mem_append, not_or] at hreset
    obtain ⟨hdiscarded, hfs⟩ := h.untouched hreset.1
    obtain ⟨hdiscarded', hfs'⟩ := h'.untouched hreset.2
    refine ⟨hdiscarded'.trans hdiscarded, fun f hf => ?_⟩
    rcases List.mem_append.mp hf with hf | hf
    · exact hfs f hf
    · exact hfs' f hf

lemma step_matches {s s' : Between A α τ ω} {e : Event α} (h : s.step g d e = some s') :
    ∃ fs, Matches g d s s' ([e].filterMap Event.op) fs := by
  cases e with
  | push item =>
    obtain rfl := Option.some.inj h
    obtain ⟨hrun, hpushed, hdiscarded⟩ := System.run_pushes d (s.front.call g item).2 s.system
    refine ⟨_, hrun, rfl, ?_, fun _ => ⟨hdiscarded, ?_⟩⟩
    · rw [hpushed]
      simp [Event.op, Object.applyAll, Object.apply]
    · intro f hf
      obtain ⟨t, -, rfl⟩ := List.mem_map.mp hf
      simp
  | reset =>
    obtain rfl := Option.some.inj h
    have hnone : (s.front.applyAll g ([Event.reset].filterMap (Event.op (α := α)))).2 = [] := rfl
    have hmem : Op.reset ∈ [Event.reset].filterMap (Event.op (α := α)) := List.mem_singleton_self _
    cases hr : s.front.resets with
    | true =>
      refine ⟨[.reset], ?_, rfl, ?_, fun hreset => absurd hmem hreset⟩
      · simp [System.step]
      · simp [hnone, System.reset]
    | false =>
      refine ⟨[], ?_, rfl, ?_, fun hreset => absurd hmem hreset⟩
      · simp
      · simp [hnone]
  | expire id =>
    obtain ⟨system, hs, rfl⟩ := Option.map_eq_some_iff.mp h
    obtain ⟨queue, -, rfl⟩ := System.step_expire d hs
    refine ⟨[.expire id], ?_, rfl, (List.append_nil _).symm, fun _ => ⟨rfl, by simp⟩⟩
    simp [hs]
  | callback id =>
    obtain ⟨system, hs, rfl⟩ := Option.map_eq_some_iff.mp h
    obtain ⟨-, rfl⟩ := System.step_callback d hs
    obtain ⟨hpushed, hdiscarded⟩ := System.callback_pushed d s.system id
    refine ⟨[.callback id], ?_, rfl, ?_, fun _ => ⟨hdiscarded, by simp⟩⟩
    · simp [hs]
    · rw [hpushed]
      exact (List.append_nil _).symm

lemma run_matches {s s' : Between A α τ ω} {es : List (Event α)}
    (h : run (step g d) s es = some s') : ∃ fs, Matches g d s s' (es.filterMap Event.op) fs := by
  induction es generalizing s with
  | nil =>
    obtain rfl := Option.some.inj h
    exact ⟨[], Matches.refl g d s⟩
  | cons e es ih =>
    obtain ⟨t, ht, hrest⟩ := Option.bind_eq_some_iff.mp h
    obtain ⟨fs, hfirst⟩ := step_matches g d ht
    obtain ⟨fs', hnext⟩ := ih hrest
    have hops : (e :: es).filterMap Event.op =
        [e].filterMap Event.op ++ es.filterMap Event.op := by
      rw [← List.filterMap_append, List.singleton_append]
    exact ⟨fs ++ fs', hops ▸ hfirst.trans hnext⟩

def Event.ofTick : Tick → Event α
  | .expire id => .expire id
  | .callback id => .callback id

lemma run_ticks {s : Between A α τ ω} {t : System A τ ω} {ticks : List Tick}
    (h : run (System.step d) s.system (ticks.map Tick.event) = some t) :
    run (step g d) s (ticks.map Event.ofTick) = some { s with system := t } := by
  induction ticks generalizing s with
  | nil =>
    obtain rfl := Option.some.inj h
    rfl
  | cons tick ticks ih =>
    obtain ⟨u, hu, hrest⟩ := Option.bind_eq_some_iff.mp h
    have hstep : s.step g d (Event.ofTick tick) = some { s with system := u } := by
      cases tick with
      | expire id => exact congrArg (Option.map _) hu
      | callback id => exact congrArg (Option.map _) hu
    rw [List.map_cons, run_cons, hstep, Option.bind_some]
    exact ih (s := { s with system := u }) hrest

lemma run_inv (p : Pipeline α τ) (action : A) (milliseconds : Int32) {s : Between A α τ ω}
    {es : List (Event α)} (h : run (step g d) (new p action milliseconds) es = some s) :
    s.system.Inv := by
  obtain ⟨fs, hmatches⟩ := run_matches g d h
  exact System.inv_run d (System.inv_new action milliseconds) hmatches.run

/-- Whatever is called and whatever the timers do, the items that the stages in front make of the
calls on the head are handed on once and in order, wait with a timer, or were discarded. -/
theorem accounts (p : Pipeline α τ) (action : A) (milliseconds : Int32)
    {s : Between A α τ ω} {es : List (Event α)}
    (h : run (step g d) (new p action milliseconds) es = some s) :
    (∀ batch ∈ s.system.handed, batch ≠ []) ∧
      s.system.handed.flatten ++ s.system.cluster.items =
        s.system.pushed.filter (fun e => decide (e.serial ∉ s.system.discarded)) ∧
      s.system.pushed.map Entry.value =
        ((p.build .action).applyAll g (es.filterMap Event.op)).2 ∧
      (s.system.cluster.items ≠ [] → System.Awaited s.system.queue) := by
  have hinv := run_inv g d p action milliseconds h
  obtain ⟨fs, hmatches⟩ := run_matches g d h
  refine ⟨hinv.balanced.batch_ne, hinv.balanced.account, ?_, fun hne => ?_⟩
  · exact hmatches.pushed
  · exact hinv.awaited (hinv.items_open hne)

/-- `buffer(2) >> time_cluster(500)`; the `reset()` finds an item in the buffer and a batch in the
cluster. -/
theorem accounts_buffer :
    ∃ s, run (step doubling (plainAction (List (List ℕ))))
        (new (.cons (.buffer 2) .nil) () 500)
        [.push 1, .push 2, .push 3, .reset, .push 4, .push 5, .expire 2] = some s ∧
      s.system.pushed.map Entry.value = [[1, 2], [4, 5]] ∧ s.system.discarded = [0] := by
  obtain ⟨s, hs, hdiscarded⟩ : ∃ s, run (step doubling (plainAction (List (List ℕ))))
      (new (.cons (.buffer 2) .nil) () 500)
      [.push 1, .push 2, .push 3, .reset, .push 4, .push 5, .expire 2] = some s ∧
        s.system.discarded = [0] := ⟨_, rfl, rfl⟩
  have h := (accounts doubling _ _ () 500 hs).2.2.1
  exact ⟨s, hs, h.trans (by decide), hdiscarded⟩

def Event.item : Event α → Option α
  | .push item => some item
  | .reset => none
  | .expire _ => none
  | .callback _ => none

lemma filterMap_op {es : List (Event α)} (h : ∀ e ∈ es, e ≠ .reset) :
    es.filterMap Event.op = (es.filterMap Event.item).map .push := by
  rw [List.map_filterMap]
  refine List.filterMap_congr fun e he => ?_
  cases e with
  | reset => exact absurd rfl (h .reset he)
  | push item => rfl
  | expire id => rfl
  | callback id => rfl

/-- What waits for a timer gets out. -/
lemma exists_flushed {s : Between A α τ ω} (h : s.system.Inv) :
    ∃ (fs : List (Event α)) (s' : Between A α τ ω), (∀ e ∈ fs, e.timed = true) ∧
      run (step g d) s fs = some s' ∧ s'.system.cluster.items = [] := by
  obtain ⟨ticks, t, hrun, hnil, -⟩ := System.exists_flushed d h
  refine ⟨ticks.map Event.ofTick, { s with system := t }, ?_, run_ticks g d hrun, hnil⟩
  intro e he
  obtain ⟨tick, -, rfl⟩ := List.mem_map.mp he
  cases tick <;> rfl

lemma batches_flatten {s : System A τ ω} (h : s.Inv) (hd : s.discarded = []) :
    s.batches.flatten ++ s.cluster.items.map Entry.value = s.pushed.map Entry.value := by
  have haccount : s.handed.flatten ++ s.cluster.items =
      s.pushed.filter fun e => decide (e.serial ∉ s.discarded) := h.balanced.account
  have hkept : (s.pushed.filter fun e => decide (e.serial ∉ s.discarded)) = s.pushed := by
    rw [hd]
    simp
  rw [hkept] at haccount
  rw [← haccount, List.map_append, List.map_flatten]
  rfl

end Between

namespace Between

variable {α τ ω : Type} (g : Growth)

/-- What holds where the calls on the head have all been pushes. -/
lemma Matches.delivered {p : Pipeline α τ} (hp : p.Positive) {q : Pipeline (List τ) ω}
    (hq : q.Positive) (hf : q.split.front.Forgetful) {milliseconds : Int32} {items : List α}
    {fs : List (Stream.Event τ)} {s : Between (Object ω (List τ)) α τ ω}
    (h : Matches g (pipelineBehind g) (new p (q.build .action).moved milliseconds) s
      (items.map .push) fs) :
    s.system.batches.flatten ++ s.system.cluster.items.map Entry.value = p.meaning items ∧
      (∀ batch ∈ s.system.batches, batch ≠ []) ∧
      s.system.received = q.meaning s.system.batches := by
  have hinv := System.inv_run _ (System.inv_new _ milliseconds) h.run
  obtain ⟨hdiscarded, hfs⟩ := h.untouched (by simp)
  refine ⟨?_, ?_, ?_⟩
  · rw [batches_flatten hinv hdiscarded, h.pushed, Object.applyAll_push, new, p.build_settle,
      p.pushAll_closed g hp]
    rfl
  · intro batch hbatch
    obtain ⟨entries, hentries, rfl⟩ := List.mem_map.mp hbatch
    rw [ne_eq, List.map_eq_nil_iff]
    exact hinv.balanced.batch_ne entries hentries
  · have hsep := separate_run g q.split hq (separate_new q.split milliseconds) hfs h.run
    exact hsep.delivered_iff.mpr (q.split.apart_of_forgetful hq hf s.system.batches)

lemma delivered_so_far (p : Pipeline α τ) (hp : p.Positive) (q : Pipeline (List τ) ω)
    (hq : q.Positive) (hf : q.split.front.Forgetful) (milliseconds : Int32)
    {es : List (Event α)} (hes : ∀ e ∈ es, e ≠ .reset)
    {s : Between (Object ω (List τ)) α τ ω}
    (h : run (step g (pipelineBehind g)) (new p (q.build .action).moved milliseconds) es =
      some s) :
    s.system.batches.flatten ++ s.system.cluster.items.map Entry.value =
        p.meaning (es.filterMap Event.item) ∧
      (∀ batch ∈ s.system.batches, batch ≠ []) ∧
      s.system.received = q.meaning s.system.batches := by
  obtain ⟨fs, hmatches⟩ := run_matches g _ h
  rw [filterMap_op hes] at hmatches
  exact hmatches.delivered g hp hq hf

/-- A cluster between stages, in a run without a `reset()`, all timers being created. At any time
the batches that it has handed on and the items that wait in it are what the stages in front make
of what was pushed, no batch is empty, and the action has received what the stages behind make of
the batches; and the timers can bring all of it to the action. -/
theorem delivers (p : Pipeline α τ) (hp : p.Positive) (q : Pipeline (List τ) ω)
    (hq : q.Positive) (hf : q.split.front.Forgetful) (milliseconds : Int32)
    {es : List (Event α)} (hes : ∀ e ∈ es, e ≠ .reset)
    {s : Between (Object ω (List τ)) α τ ω}
    (h : run (step g (pipelineBehind g)) (new p (q.build .action).moved milliseconds) es =
      some s) :
    s.system.batches.flatten ++ s.system.cluster.items.map Entry.value =
        p.meaning (es.filterMap Event.item) ∧
      (∀ batch ∈ s.system.batches, batch ≠ []) ∧
      s.system.received = q.meaning s.system.batches ∧
      ∃ fs s', (∀ e ∈ fs, e.timed = true) ∧ run (step g (pipelineBehind g)) s fs = some s' ∧
        s'.system.batches.flatten = p.meaning (es.filterMap Event.item) ∧
        s'.system.received = q.meaning s'.system.batches := by
  obtain ⟨haccount, hne, hreceived⟩ := delivered_so_far g p hp q hq hf milliseconds hes h
  refine ⟨haccount, hne, hreceived, ?_⟩
  obtain ⟨fs, s', hfs, hrun, hnil⟩ :=
    exists_flushed g (pipelineBehind g) (run_inv g _ p _ milliseconds h)
  have hreset : ∀ e ∈ es ++ fs, e ≠ .reset := by
    intro e he
    rcases List.mem_append.mp he with he | he
    · exact hes e he
    · rintro rfl
      exact absurd (hfs _ he) (by simp [Event.timed])
  have hitems : (es ++ fs).filterMap Event.item = es.filterMap Event.item := by
    have hnone : fs.filterMap Event.item = [] := by
      rw [List.filterMap_eq_nil_iff]
      intro e he
      have htimed := hfs e he
      cases e <;> first | rfl | cases htimed
    rw [List.filterMap_append, hnone, List.append_nil]
  have hwhole : run (step g (pipelineBehind g)) (new p (q.build .action).moved milliseconds)
      (es ++ fs) = some s' := by
    rw [run_append, h, Option.bind_some, hrun]
  obtain ⟨haccount', -, hreceived'⟩ :=
    delivered_so_far g p hp q hq hf milliseconds hreset hwhole
  rw [hnil, List.map_nil, List.append_nil, hitems] at haccount'
  exact ⟨fs, s', hfs, hrun, haccount', hreceived'⟩

def odd : Pipeline ℕ ℕ := .cons (.where_ fun n => n % 2 == 1) .nil

def nonEmpty : Pipeline (List ℕ) (List ℕ) := .cons (.where_ fun xs => !xs.isEmpty) .nil

theorem delivers_odd :
    ∃ s, run (step doubling (pipelineBehind doubling))
        (new odd (nonEmpty.build .action).moved 500)
        [.push 1, .push 2, .push 3, .expire 1, .callback 1, .push 5] = some s ∧
      s.system.batches.flatten ++ s.system.cluster.items.map Entry.value = [1, 3, 5] ∧
      s.system.received = nonEmpty.meaning s.system.batches := by
  obtain ⟨s, hs⟩ : ∃ s, run (step doubling (pipelineBehind doubling))
      (new odd (nonEmpty.build .action).moved 500)
      [.push 1, .push 2, .push 3, .expire 1, .callback 1, .push 5] = some s := ⟨_, rfl⟩
  have h := delivers doubling odd ⟨trivial, trivial⟩ nonEmpty ⟨trivial, trivial⟩ trivial
    500 (by decide) hs
  exact ⟨s, hs, h.1.trans (by decide), h.2.2.1⟩

end Between

end CppMisc.Stream
