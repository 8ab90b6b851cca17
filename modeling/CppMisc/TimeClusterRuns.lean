import CppMisc.TimeCluster

/-! What holds of every run of a `TimeCluster`: its ledger stays balanced, and whatever
waits in `items_` has a timer that will bring it out. -/
namespace CppMisc.Stream
open BatchLedger Timers Runs

variable {A τ ω : Type*} (d : Downstream A (List τ) ω)

namespace System

/-- The most recently created timer is armed or has a callback pending. -/
def Awaited (queue : TimerQueue) : Prop :=
  (∃ t ∈ queue.live, t.id = queue.created ∧ t.armed = true) ∨ queue.created ∈ queue.pending

/-- `first_` is false exactly while a timer of the cluster is waited for, and it is false
where items are pending. -/
structure Inv (s : System A τ ω) : Prop where
  balanced : s.ledger.Balanced
  timer_action : s.cluster.first = false → s.cluster.timer.action = some .flushAndReset
  awaited : s.cluster.first = false → Awaited s.queue
  items_open : s.cluster.items ≠ [] → s.cluster.first = false

lemma inv_new (action : A) (milliseconds : Int32) :
    Inv (System.new τ action milliseconds : System A τ ω) where
  balanced := Ledger.balanced_empty
  timer_action h := by cases h
  awaited h := by cases h
  items_open h := absurd rfl h

lemma Inv.of_first {s : System A τ ω} (hb : s.ledger.Balanced) (hf : s.cluster.first = true)
    (hi : s.cluster.items = []) : Inv s where
  balanced := hb
  timer_action h := by simp [hf] at h
  awaited h := by simp [hf] at h
  items_open h := absurd hi h

lemma Inv.items_nil {s : System A τ ω} (h : Inv s) (hf : s.cluster.first = true) :
    s.cluster.items = [] := by
  by_contra hne
  simp [h.items_open hne] at hf

lemma awaited_create (queue : TimerQueue) (dueTime period : UInt32) :
    Awaited (queue.create dueTime period) :=
  .inl ⟨⟨queue.created + 1, dueTime, period, true⟩, by simp [TimerQueue.create], rfl, rfl⟩

/-- An expiry of the timer that is waited for queues its callback; that of another timer
leaves it armed. -/
lemma awaited_expire {queue queue' : TimerQueue} {id : ℕ} (h : queue.expire id = some queue')
    (hw : Awaited queue) : Awaited queue' := by
  unfold TimerQueue.expire at h
  split_ifs at h
  obtain rfl := Option.some.inj h
  rcases hw with ⟨t, ht, hid, harmed⟩ | hpend
  · by_cases he : t.id = id
    · exact .inr (by simp [← hid, he])
    · exact .inl ⟨t, List.mem_map.mpr ⟨t, ht, by simp [he]⟩, hid, harmed⟩
  · exact .inr (List.mem_append_left _ hpend)

lemma inv_push {s : System A τ ω} (h : Inv s) (value : τ) (created : Bool) :
    Inv (s.push value created) := by
  cases hf : s.cluster.first with
  | false =>
    obtain ⟨hl, hfirst, ht, hq, -, -⟩ := s.push_next value created hf
    exact
      { balanced := hl ▸ h.balanced.enter value
        timer_action := fun _ => by rw [ht]; exact h.timer_action hf
        awaited := fun _ => by rw [hq]; exact h.awaited hf
        items_open := fun _ => hfirst }
  | true =>
    cases created with
    | false =>
      obtain ⟨hl, hfirst, -, -, -⟩ := s.push_throw value hf
      have hitems : (s.push value false).cluster.items = s.cluster.items :=
        congrArg Ledger.pending hl
      exact .of_first (hl ▸ h.balanced) hfirst (hitems.trans (h.items_nil hf))
    | true =>
      obtain ⟨hl, hfirst, ha, hq, -, -⟩ := s.push_first value hf
      exact
        { balanced := hl ▸ h.balanced.enter value
          timer_action := fun _ => ha
          awaited := fun _ => by rw [hq]; exact awaited_create _ _ _
          items_open := fun _ => hfirst }

lemma inv_flush {s : System A τ ω} (hb : s.ledger.Balanced) (timer : Option ℕ) :
    Inv (s.flush d timer) := by
  obtain ⟨hl, hfirst, -, -, -⟩ := s.flush_spec d timer
  exact .of_first (hl ▸ hb.flush) hfirst (congrArg Ledger.pending hl)

lemma inv_reset {s : System A τ ω} (h : Inv s) : Inv (s.reset d) := by
  obtain ⟨hl, hfirst, -, -, -⟩ := s.reset_spec d
  exact .of_first (hl ▸ h.balanced.discard) hfirst (congrArg Ledger.pending hl)

lemma Inv.first_of_action {s : System A τ ω} (h : Inv s)
    (ha : s.cluster.timer.action = none) : s.cluster.first = true := by
  by_contra hf
  simp [h.timer_action (by simpa using hf)] at ha

lemma inv_callback {s : System A τ ω} (h : Inv s) (id : ℕ) : Inv (s.callback d id) := by
  cases ha : s.cluster.timer.action with
  | some f =>
    rw [callback_flush d s id ha]
    exact inv_flush d (s := s.running id) h.balanced (some id)
  | none =>
    have hf := h.first_of_action ha
    rw [callback_skip d s id ha]
    exact .of_first h.balanced hf (h.items_nil hf)

lemma inv_step {s s' : System A τ ω} {e : Event τ} (h : Inv s) (hs : s.step d e = some s') :
    Inv s' := by
  cases e with
  | push value created => cases hs; exact inv_push h value created
  | expire id =>
    obtain ⟨queue, hq, rfl⟩ := step_expire d hs
    exact { h with awaited := fun hf => awaited_expire hq (h.awaited hf) }
  | callback id =>
    obtain ⟨-, rfl⟩ := step_callback d hs
    exact inv_callback d h id
  | flushAndReset => cases hs; exact inv_flush d h.balanced none
  | reset => cases hs; exact inv_reset d h

theorem inv_run {s s' : System A τ ω} {es : List (Event τ)} (h : Inv s)
    (hs : run (step d) s es = some s') : Inv s' :=
  run_invariant (fun _ _ _ hi hst => inv_step d hi hst) hs h

end System

/-- Every item is delivered exactly once and none is stranded. In every state that a run
leads to, the batches handed downstream are not empty; they and `items_` are the items
pushed, in order, but for those that were in `items_` when a `reset()` was called; and
items that wait have a timer. -/
theorem timeCluster_delivers (action : A) (milliseconds : Int32) (es : List (Event τ))
    (s : System A τ ω) (hs : run (System.step d) (System.new τ action milliseconds) es = some s) :
    (∀ batch ∈ s.handed, batch ≠ []) ∧
      s.handed.flatten ++ s.cluster.items =
        s.pushed.filter (fun e => decide (e.serial ∉ s.discarded)) ∧
      (s.cluster.items ≠ [] → s.cluster.first = false ∧ System.Awaited s.queue) := by
  have h := System.inv_run d (System.inv_new action milliseconds) hs
  exact ⟨h.balanced.batch_ne, h.balanced.account, fun hne =>
    ⟨h.items_open hne, h.awaited (h.items_open hne)⟩⟩

def plainAction (ω : Type*) : Downstream Unit ω ω := ⟨fun _ item => ((), [item]), fun _ => ()⟩

/-- A stale callback flushes the second cluster, and nothing is lost by that. -/
theorem timeCluster_delivers_stale :
    ∃ s, run (System.step (plainAction (List ℕ))) (System.new ℕ () 500)
        [.push 1 true, .expire 1, .reset, .push 2 true, .push 3 false, .callback 1, .push 4 false,
          .push 5 true] = some s ∧
      s.handed.flatten ++ s.cluster.items = [⟨2, 1⟩, ⟨3, 2⟩, ⟨5, 3⟩] := by
  refine ⟨_, rfl, ?_⟩
  have h := (timeCluster_delivers (plainAction (List ℕ)) () 500
    [.push 1 true, .expire 1, .reset, .push 2 true, .push 3 false, .callback 1, .push 4 false,
      .push 5 true] _ rfl).2.1
  exact h.trans (by decide)

end CppMisc.Stream
