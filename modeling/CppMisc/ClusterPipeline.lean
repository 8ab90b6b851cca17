import CppMisc.StreamReset
import CppMisc.TimeClusterRuns

/-! `time_cluster >> S1 >> ... >> Sk >> action`. A flush hands a batch to the stages and
then resets them, so the stages that the reset reaches start afresh with every batch;
those behind the first `where` or `select` go on from where they were. -/
namespace CppMisc.Stream
open BatchLedger Timers Runs

variable {ω τ : Type}

def pipelineBehind (g : Growth) : Downstream (Object ω (List τ)) (List τ) ω :=
  ⟨Object.call g, Object.reset⟩

namespace System

def batches {A : Type*} (s : System A τ ω) : List (List τ) :=
  s.handed.map fun batch => batch.map Entry.value

lemma flush_behind {A : Type*} (d : Downstream A (List τ) ω) (s : System A τ ω)
    (timer : Option ℕ) :
    if s.cluster.items = [] then
      (s.flush d timer).cluster.action.1 = d.reset s.cluster.action.1 ∧
        (s.flush d timer).batches = s.batches ∧ (s.flush d timer).received = s.received
    else
      (s.flush d timer).cluster.action.1 =
          d.reset (d.call s.cluster.action.1 (s.cluster.items.map Entry.value)).1 ∧
        (s.flush d timer).batches = s.batches ++ [s.cluster.items.map Entry.value] ∧
        (s.flush d timer).received =
          s.received ++ (d.call s.cluster.action.1 (s.cluster.items.map Entry.value)).2 := by
  cases h : s.cluster.items <;>
    simp [flush, batches, handed, TimeCluster.flushAndReset, TimeCluster.reset,
      Downstream.recorded, h]

lemma push_behind {A : Type*} (s : System A τ ω) (value : τ) (created : Bool) :
    (s.push value created).cluster.action = s.cluster.action := by
  cases hf : s.cluster.first <;> cases created <;>
    simp [push, TimeCluster.call, hf, World.once, World.init]

end System

/-- What the front makes of each batch alone, in the order of the batches. -/
def Split.piecewise {α β : Type} {p : Pipeline α β} (d : Split p) (batches : List α) :
    List d.mid :=
  batches.flatMap fun batch => d.front.meaning [batch]

/-- The front is as newly built; the back has seen what the front made of each batch. -/
structure Separate {p : Pipeline (List τ) ω} (d : Split p)
    (s : System (Object ω (List τ)) τ ω) : Prop where
  action : s.cluster.action.1 =
    d.front.settle [] (d.back.settle (d.piecewise s.batches) .action)
  received : s.received = d.back.meaning (d.piecewise s.batches)

section
variable (g : Growth) {p : Pipeline (List τ) ω} (d : Split p)

lemma separate_new (milliseconds : Int32) :
    Separate d (System.new τ (p.build .action).moved milliseconds) where
  action := by
    rw [Object.moved_eq, p.build_settle]
    conv_lhs => rw [← d.append_eq, Pipeline.append_settle, Pipeline.meaning_nil]
    rfl
  received := by
    simp [System.new, System.batches, System.handed, TimeCluster.new, Split.piecewise]

lemma Split.reset_fresh (hp : p.Positive) (zs : List d.mid) :
    (d.front.settle [] (d.back.settle zs .action)).reset =
      d.front.settle [] (d.back.settle zs .action) := by
  rw [d.front_forwards.reset_settle (d.positive hp).1, d.back_swallows.reset_settle]

lemma separate_flush (hp : p.Positive) {s : System (Object ω (List τ)) τ ω}
    (h : Separate d s) (timer : Option ℕ) :
    Separate d (s.flush (pipelineBehind g) timer) := by
  have hbehind := s.flush_behind (pipelineBehind g) timer
  split_ifs at hbehind with hitems
  · obtain ⟨ha, hb, hr⟩ := hbehind
    refine ⟨?_, by rw [hr, hb]; exact h.received⟩
    rw [ha, hb, h.action]
    exact d.reset_fresh hp _
  · obtain ⟨ha, hb, hr⟩ := hbehind
    obtain ⟨hfront, hback⟩ := d.positive hp
    generalize hbatch : s.cluster.items.map Entry.value = batch at ha hb hr
    -- the back gains what the fresh front makes of the batch
    obtain ⟨zs, hz, hpush⟩ := d.back.pushAll_settle g hback (d.piecewise s.batches)
      (d.front.meaning [batch]) (.action : Object ω ω)
    have hcall : s.cluster.action.1.call g batch =
        (d.front.settle [batch] (d.back.settle (d.piecewise s.batches ++ d.front.meaning [batch])
          .action), zs) := by
      have hfresh := d.front.pushAll_fresh g hfront [batch]
        (d.back.settle (d.piecewise s.batches) (.action : Object ω ω))
      rw [hpush, Object.action_pushAll, ← h.action] at hfresh
      simpa [Object.pushAll] using hfresh
    have hpiece : d.piecewise (s.batches ++ [batch]) =
        d.piecewise s.batches ++ d.front.meaning [batch] := by
      simp [Split.piecewise]
    refine ⟨?_, ?_⟩
    · rw [ha, hb, hpiece]
      simp only [pipelineBehind, hcall]
      rw [d.front_forwards.reset_settle hfront, d.back_swallows.reset_settle]
    · rw [hr, hb, hpiece, hz, h.received]
      simp only [pipelineBehind, hcall]

lemma separate_step (hp : p.Positive) {s s' : System (Object ω (List τ)) τ ω} {e : Event τ}
    (h : Separate d s) (hs : s.step (pipelineBehind g) e = some s') (he : e ≠ .reset) :
    Separate d s' := by
  cases e with
  | push value created =>
    cases hs
    have ha := s.push_behind value created
    have hb : (s.push value created).batches = s.batches := by
      simp only [System.batches, System.handed, ha]
    exact ⟨by rw [ha, hb]; exact h.action, by rw [hb]; exact h.received⟩
  | expire id =>
    obtain ⟨queue, -, rfl⟩ := System.step_expire (pipelineBehind g) hs
    exact ⟨h.action, h.received⟩
  | callback id =>
    obtain ⟨-, rfl⟩ := System.step_callback (pipelineBehind g) hs
    have hrunning : Separate d (s.running id) := ⟨h.action, h.received⟩
    cases ha : s.cluster.timer.action with
    | some f =>
      rw [System.callback_flush (pipelineBehind g) s id ha]
      exact separate_flush g d hp hrunning _
    | none =>
      rw [System.callback_skip (pipelineBehind g) s id ha]
      exact hrunning
  | flushAndReset => cases hs; exact separate_flush g d hp h none
  | reset => exact absurd rfl he

theorem separate_run (hp : p.Positive) {s s' : System (Object ω (List τ)) τ ω}
    {es : List (Event τ)} (h : Separate d s) (hes : ∀ e ∈ es, e ≠ .reset)
    (hs : run (System.step (pipelineBehind g)) s es = some s') : Separate d s' :=
  run_invariant_of (C := fun e => e ≠ .reset)
    (fun _ _ _ hsep he hst => separate_step g d hp hsep hst he) hes hs h

end

/-- The final action has received the composition of the stages' list functions on the
batches that the cluster has flushed. -/
def Delivered (p : Pipeline (List τ) ω) (s : System (Object ω (List τ)) τ ω) : Prop :=
  s.received = p.meaning s.batches

/-- The front makes of the batches one by one what it makes of them together, as far as
the back shows. -/
def Split.Apart {α β : Type} {p : Pipeline α β} (d : Split p) (batches : List α) : Prop :=
  d.back.meaning (d.piecewise batches) = d.back.meaning (d.front.meaning batches)

lemma Separate.delivered_iff {p : Pipeline (List τ) ω} {d : Split p}
    {s : System (Object ω (List τ)) τ ω} (h : Separate d s) :
    Delivered p s ↔ d.Apart s.batches := by
  rw [Delivered, Split.Apart, h.received, d.meaning_eq]

lemma Split.apart_of_forgetful {α β : Type} {p : Pipeline α β} (d : Split p)
    (hp : p.Positive) (hf : d.front.Forgetful) (batches : List α) : d.Apart batches := by
  have hpiece : d.piecewise batches = d.front.meaning batches := by
    induction batches with
    | nil => simp [piecewise]
    | cons batch batches ih =>
      have hcons := hf.meaning_append (d.positive hp).1 [batch] batches
      rw [List.singleton_append] at hcons
      rw [hcons, ← ih]
      rfl
  rw [Apart, hpiece]

lemma Pipeline.meaning_prefix {α β : Type} (p : Pipeline α β) (hp : p.Positive)
    (xs ys : List α) : ∃ zs, p.meaning (xs ++ ys) = p.meaning xs ++ zs := by
  obtain ⟨zs, hz, -⟩ := p.pushAll_settle doubling hp xs ys .action
  exact ⟨zs, hz⟩

lemma Split.exists_not_apart {α β : Type} {p : Pipeline α β} (d : Split p) (hp : p.Positive)
    (hl : p.Lossless) (hr : ¬ d.front.Forgetful) (a : α) :
    ∃ n, ¬ d.Apart (List.replicate n a) := by
  obtain ⟨hfront, hback⟩ := d.positive hp
  rw [← d.append_eq, Pipeline.append_lossless] at hl
  obtain ⟨hlf, hlb⟩ := hl
  rcases Nat.lt_or_ge d.front.width 2 with hw | hw
  · -- each batch arrives; the second of them already differs
    have hw1 : d.front.width = 1 := by
      have hpos := hfront.width_pos
      omega
    obtain ⟨b, hb⟩ : ∃ b, d.front.meaning [a] = [b] := by
      rw [← List.length_eq_one_iff, hlf.meaning_length, hw1]
      exact Nat.div_one _
    have hpiece : ∀ n, d.piecewise (List.replicate n a) = List.replicate n b := by
      intro n
      simp [piecewise, List.flatMap_replicate, hb]
    obtain ⟨k, hk⟩ : ∃ k, 2 * d.back.width = 2 + k :=
      ⟨2 * d.back.width - 2, by have := hback.width_pos; omega⟩
    refine ⟨2 * d.back.width, ?_⟩
    intro hapart
    rw [Apart, hpiece] at hapart
    have hsame := hlb.meaning_inj hback (by simp) (by simp [hlf.meaning_length, hw1]) hapart
    rw [hk, List.replicate_add, List.replicate_add] at hsame
    obtain ⟨zs, hz⟩ := d.front.meaning_prefix hfront (List.replicate 2 a) (List.replicate k a)
    rw [hz] at hsame
    have htwo := (List.append_inj hsame (by simp [hlf.meaning_length, hw1])).1
    refine hlf.pair_remembered hfront hw1 hr a a ?_
    rw [hb]
    exact htwo.symm
  · -- no batch alone fills the front
    refine ⟨d.front.width * d.back.width, ?_⟩
    intro hapart
    have hnil : d.front.meaning [a] = [] := by
      apply List.eq_nil_of_length_eq_zero
      rw [hlf.meaning_length]
      exact Nat.div_eq_of_lt hw
    have hlen := congrArg List.length hapart
    simp only [piecewise, List.flatMap_replicate, hnil, List.flatten_replicate_nil,
      Pipeline.meaning_nil, List.length_nil, hlb.meaning_length, hlf.meaning_length,
      List.length_replicate, Nat.mul_div_cancel_left _ hfront.width_pos,
      Nat.div_self hback.width_pos] at hlen
    omega

/-- Pushes, and what the timers of the cluster do. -/
def Event.timed : Event τ → Bool
  | .push _ _ => true
  | .expire _ => true
  | .callback _ => true
  | .flushAndReset => false
  | .reset => false

/-- One item pushed into an empty cluster, which its timer then flushes. -/
lemma System.run_lone {A : Type*} (d : Downstream A (List τ) ω) {s : System A τ ω}
    (hf : s.cluster.first = true) (hi : s.cluster.items = []) (a : τ) :
    ∃ s', run (step d) s [.push a true, .expire (s.queue.created + 1),
        .callback (s.queue.created + 1)] = some s' ∧
      s'.cluster.first = true ∧ s'.cluster.items = [] ∧ s'.batches = s.batches ++ [[a]] := by
  obtain ⟨hl, -, ha, hq, -, -⟩ := s.push_first a hf
  have hitems : (s.push a true).cluster.items = [s.ledger.next a] := by
    have hp := congrArg Ledger.pending hl
    simpa [Ledger.enter, ledger, hi] using hp
  have hbatches : (s.push a true).batches = s.batches := by
    simp only [batches, handed, push_behind]
  obtain ⟨queue, hexp, hpend⟩ : ∃ queue, (s.push a true).queue.expire (s.queue.created + 1) =
      some queue ∧ s.queue.created + 1 ∈ queue.pending := by
    rw [hq]
    exact s.queue.expire_create _ _
  -- the state in which the callback flushes
  let u : System A τ ω := { s.push a true with queue }
  let t : System A τ ω := u.running (s.queue.created + 1)
  obtain ⟨hflush, hfirst, -, -, -⟩ := t.flush_spec d (some (s.queue.created + 1))
  have hbehind := t.flush_behind d (some (s.queue.created + 1))
  rw [if_neg (by simp [t, u, running, hitems])] at hbehind
  refine ⟨t.flush d (some (s.queue.created + 1)), ?_, hfirst, congrArg Ledger.pending hflush, ?_⟩
  · simp only [run_cons, run_nil, step, Option.bind_some, hexp, Option.map_some, if_pos hpend]
    exact congrArg some (callback_flush d u _ ha)
  · rw [hbehind.2.1]
    simp [t, u, running, hitems, batches, handed, push_behind, Ledger.next]

lemma System.exists_run_lone {A : Type*} (d : Downstream A (List τ) ω) {s : System A τ ω}
    (hf : s.cluster.first = true) (hi : s.cluster.items = []) (xs : List τ) :
    ∃ es s', (∀ e ∈ es, e.timed = true) ∧ run (step d) s es = some s' ∧
      s'.batches = s.batches ++ xs.map fun x => [x] := by
  induction xs generalizing s with
  | nil => exact ⟨[], s, by simp, rfl, by simp⟩
  | cons x xs ih =>
    obtain ⟨t, ht, hft, hit, hbt⟩ := run_lone d hf hi x
    obtain ⟨es, s', hes, hrun, hb⟩ := ih hft hit
    refine ⟨_ ++ es, s', ?_, by rw [run_append, ht]; exact hrun, by simp [hb, hbt]⟩
    simpa [Event.timed] using hes

/-- When the timer of a cluster leaves alone what the stages behind it have accumulated.
In a run without a `reset()` of the user the action receives what it should exactly if the
front makes of the batches one by one what it makes of them together; in all runs if no
stage of the front remembers; and in a lossless pipeline only then, however the timers go. -/
theorem clusterPipeline_delivered_iff (g : Growth) (p : Pipeline (List τ) ω) (hp : p.Positive)
    (milliseconds : Int32) :
    (∀ es s, (∀ e ∈ es, e ≠ Event.reset) →
      run (System.step (pipelineBehind g))
        (System.new τ (p.build .action).moved milliseconds) es = some s →
      (Delivered p s ↔ p.split.Apart s.batches)) ∧
    (p.split.front.Forgetful → ∀ es s, (∀ e ∈ es, e ≠ Event.reset) →
      run (System.step (pipelineBehind g))
        (System.new τ (p.build .action).moved milliseconds) es = some s → Delivered p s) ∧
    (Nonempty τ → p.Lossless →
      (∀ es s, (∀ e ∈ es, e.timed = true) →
        run (System.step (pipelineBehind g))
          (System.new τ (p.build .action).moved milliseconds) es = some s → Delivered p s) →
      p.split.front.Forgetful) := by
  have hsep := separate_new p.split (τ := τ) milliseconds
  refine ⟨?_, ?_, ?_⟩
  · intro es s hes hs
    exact (separate_run g p.split hp hsep hes hs).delivered_iff
  · intro hf es s hes hs
    exact (separate_run g p.split hp hsep hes hs).delivered_iff.mpr
      (p.split.apart_of_forgetful hp hf s.batches)
  · rintro ⟨a⟩ hl hall
    by_contra hr
    obtain ⟨n, hn⟩ := p.split.exists_not_apart hp hl hr [a]
    obtain ⟨es, s, hes, hs, hb⟩ := System.exists_run_lone (pipelineBehind g)
      (s := System.new τ (p.build .action).moved milliseconds) rfl rfl (List.replicate n a)
    have hreset : ∀ e ∈ es, e ≠ Event.reset := by
      rintro e he rfl
      cases hes _ he
    have hdel := (separate_run g p.split hp hsep hreset hs).delivered_iff.mp (hall es s hes hs)
    rw [hb] at hdel
    refine hn ?_
    simpa [System.new, System.batches, System.handed, TimeCluster.new] using hdel

/-- `where` and `buffer(2)` behind a cluster, as in `main` but for the `select`. -/
def guardedPipeline : Pipeline (List ℕ) (List (List ℕ)) :=
  .cons (.where_ fun xs => !xs.isEmpty) (.cons (.buffer 2) .nil)

theorem clusterPipeline_delivered_where :
    ∃ s, run (System.step (pipelineBehind doubling))
        (System.new ℕ (guardedPipeline.build .action).moved 500)
        [.push 1 true, .expire 1, .callback 1, .push 2 true, .push 3 false, .flushAndReset] =
          some s ∧ Delivered guardedPipeline s := by
  refine ⟨_, rfl, ?_⟩
  have hguarded := (clusterPipeline_delivered_iff doubling guardedPipeline
    ⟨trivial, Nat.zero_lt_two, trivial⟩ 500).2.1 trivial
  exact hguarded [.push 1 true, .expire 1, .callback 1, .push 2 true, .push 3 false,
    .flushAndReset] _ (by decide) rfl

/-- `time_cluster >> buffer(2)`: two clusters of one item each. -/
theorem clusterPipeline_not_delivered :
    ∃ s, run (System.step (pipelineBehind doubling))
        (System.new ℕ ((Pipeline.cons (.buffer 2) .nil).build .action).moved 500)
        [.push 1 true, .expire 1, .callback 1, .push 2 true, .expire 2, .callback 2] = some s ∧
      ¬ Delivered (.cons (.buffer 2) .nil) s := by
  refine ⟨_, rfl, ?_⟩
  unfold Delivered
  decide

end CppMisc.Stream
