import CppMisc.TimeClusterRuns

/-! A `TimeCluster` whose action pushes items back into it. The recursive mutex lets these
pushes in while `flushAndReset()` still has to call `reset()`. -/
namespace CppMisc.Stream
open BatchLedger Timers Runs

variable {A τ ω : Type*} (d : Downstream A (List τ) ω)

/-- The calls on a cluster. Those that may flush carry the pushes that the action makes
before it returns, each with whether a timer can be created for it. -/
inductive Reentrant (τ : Type*)
  | push (value : τ) (created : Bool)
  | expire (id : ℕ)
  | callback (id : ℕ) (inner : List (τ × Bool))
  | flushAndReset (inner : List (τ × Bool))
  | reset

namespace System

/-- `action_(items_)`, up to the pushes that it makes. -/
def hand (s : System A τ ω) (timer : Option ℕ) : System A τ ω :=
  let a := d.recorded.call s.cluster.action s.cluster.items
  { s with
    cluster := { s.cluster with action := a.1 }
    deliveries := s.deliveries ++ [⟨timer, s.cluster.items⟩]
    received := s.received ++ a.2 }

def pushAll (s : System A τ ω) (inner : List (τ × Bool)) : System A τ ω :=
  inner.foldl (fun s p => s.push p.1 p.2) s

/-- The `reset()` that `flushAndReset()` ends with. -/
def finish (s : System A τ ω) : System A τ ω :=
  let r := s.cluster.reset d.recorded s.queue
  { s with cluster := r.1, queue := r.2 }

def reflush (s : System A τ ω) (timer : Option ℕ) (inner : List (τ × Bool)) : System A τ ω :=
  if s.cluster.items.isEmpty then s.finish d
  else ((s.hand d timer).pushAll inner).finish d

def recallback (s : System A τ ω) (id : ℕ) (inner : List (τ × Bool)) : System A τ ω :=
  let s := s.running id
  match timerTick (some s.cluster.timer) true with
  | some Callback.flushAndReset => s.reflush d (some id) inner
  | none => s

def restep (s : System A τ ω) : Reentrant τ → Option (System A τ ω)
  | .push value created => some (s.push value created)
  | .expire id => (s.queue.expire id).map fun queue => { s with queue }
  | .callback id inner =>
      if id ∈ s.queue.pending then some (s.recallback d id inner) else none
  | .flushAndReset inner => some (s.reflush d none inner)
  | .reset => some (s.reset d)

/-- Every item that was pushed has been handed downstream, or waits with a timer armed for
it, or was in `items_` when `reset()` was called from outside. -/
def Kept (s : System A τ ω) : Prop :=
  ∀ e ∈ s.pushed, e ∈ s.handed.flatten ∨ (e ∈ s.cluster.items ∧ Awaited s.queue) ∨
    e.serial ∈ s.discarded

/-- The action pushes nothing back, or it is not called as there are no items. -/
def Silent (s : System A τ ω) : Reentrant τ → Prop
  | .callback _ inner => inner = [] ∨ s.cluster.items = []
  | .flushAndReset inner => inner = [] ∨ s.cluster.items = []
  | _ => True

lemma Inv.kept {s : System A τ ω} (h : Inv s) : Kept s := by
  intro e he
  by_cases hdiscarded : e.serial ∈ s.discarded
  · exact .inr (.inr hdiscarded)
  · have hkept : e ∈ s.handed.flatten ++ s.cluster.items := by
      rw [show s.handed.flatten ++ s.cluster.items = s.ledger.kept from h.balanced.account]
      exact List.mem_filter.mpr ⟨he, decide_eq_true hdiscarded⟩
    rcases List.mem_append.mp hkept with hhanded | hitems
    · exact .inl hhanded
    · exact .inr (.inl ⟨hitems, h.awaited (h.items_open (List.ne_nil_of_mem hitems))⟩)

/-- An action that pushes nothing back leaves the flush as it was. -/
lemma reflush_silent (s : System A τ ω) (timer : Option ℕ) {inner : List (τ × Bool)}
    (h : inner = [] ∨ s.cluster.items = []) : s.reflush d timer inner = s.flush d timer := by
  cases hitems : s.cluster.items with
  | nil => simp [reflush, flush, finish, TimeCluster.flushAndReset, TimeCluster.reset, handed,
      Downstream.recorded, hitems]
  | cons e items =>
    obtain rfl := h.resolve_right (by simp [hitems])
    simp [reflush, flush, finish, hand, pushAll, TimeCluster.flushAndReset, TimeCluster.reset,
      handed, Downstream.recorded, hitems]

lemma hand_spec (s : System A τ ω) (timer : Option ℕ) :
    (s.hand d timer).handed = s.handed ++ [s.cluster.items] ∧
      (s.hand d timer).pushed = s.pushed ∧ (s.hand d timer).discarded = s.discarded ∧
      (s.hand d timer).cluster.first = s.cluster.first :=
  ⟨rfl, rfl, rfl, rfl⟩

/-- With `first_` false a push only appends. -/
lemma push_open {s : System A τ ω} (hf : s.cluster.first = false) (value : τ) (created : Bool) :
    (s.push value created).pushed = s.pushed ++ [⟨value, s.pushed.length⟩] ∧
      (s.push value created).handed = s.handed ∧
      (s.push value created).discarded = s.discarded ∧
      (s.push value created).cluster.first = false := by
  obtain ⟨hl, hfirst, -⟩ := s.push_next value created hf
  exact ⟨congrArg Ledger.entered hl, congrArg Ledger.handed hl, congrArg Ledger.discarded hl,
    hfirst⟩

lemma pushAll_open {s : System A τ ω} (hf : s.cluster.first = false)
    (inner : List (τ × Bool)) :
    s.pushed <+: (s.pushAll inner).pushed ∧ (s.pushAll inner).handed = s.handed ∧
      (s.pushAll inner).discarded = s.discarded := by
  induction inner generalizing s with
  | nil => exact ⟨List.prefix_rfl, rfl, rfl⟩
  | cons p inner ih =>
    obtain ⟨hpushed, hhanded, hdiscarded, hfirst⟩ := push_open hf p.1 p.2
    obtain ⟨hpre, hhanded', hdiscarded'⟩ := ih hfirst
    refine ⟨?_, hhanded'.trans hhanded, hdiscarded'.trans hdiscarded⟩
    rw [hpushed] at hpre
    exact (List.prefix_append _ _).trans hpre

/-- The first item that is pushed back is neither in a batch nor in `items_`. -/
lemma not_kept_reflush {s : System A τ ω} (hb : s.ledger.Balanced)
    (hfirst : s.cluster.first = false) (timer : Option ℕ) {inner : List (τ × Bool)}
    (hinner : inner ≠ []) (hitems : s.cluster.items ≠ []) :
    ¬ Kept (s.reflush d timer inner) := by
  obtain ⟨p, inner, rfl⟩ := List.exists_cons_of_ne_nil hinner
  obtain ⟨hhand, hpushed, hdiscarded, hfirst₀⟩ := s.hand_spec d timer
  obtain ⟨hpush, hhanded₁, hdiscarded₁, hfirst₁⟩ := push_open (hfirst₀.trans hfirst) p.1 p.2
  obtain ⟨hpre, hhanded₂, hdiscarded₂⟩ := pushAll_open hfirst₁ inner
  rw [hpush, hpushed] at hpre
  have hflush : s.reflush d timer (p :: inner) =
      ((s.hand d timer).pushAll (p :: inner)).finish d := by
    rw [reflush, if_neg (by simpa using hitems)]
  have hhanded : (s.reflush d timer (p :: inner)).handed = s.handed ++ [s.cluster.items] := by
    rw [hflush]
    exact hhanded₂.trans (hhanded₁.trans hhand)
  have hlost : (s.reflush d timer (p :: inner)).discarded = s.discarded := by
    rw [hflush]
    exact hdiscarded₂.trans (hdiscarded₁.trans hdiscarded)
  have hmem : (⟨p.1, s.pushed.length⟩ : Entry τ) ∈ (s.reflush d timer (p :: inner)).pushed := by
    rw [hflush]
    exact hpre.subset (List.mem_append_right _ (List.mem_singleton_self _))
  intro hkept
  rcases hkept _ hmem with hold | ⟨hwait, -⟩ | hgone
  · -- a batch holds items that were pushed earlier
    rw [hhanded, List.flatten_append, List.flatten_singleton,
      show s.handed.flatten ++ s.cluster.items = s.ledger.kept from hb.account] at hold
    have hserial := List.mem_map_of_mem (f := Entry.serial) (List.mem_filter.mp hold).1
    rw [hb.serials] at hserial
    exact lt_irrefl _ (List.mem_range.mp hserial)
  · rw [hflush] at hwait
    exact List.not_mem_nil hwait
  · rw [hlost] at hgone
    exact lt_irrefl _ (hb.discarded_lt _ hgone)

lemma kept_reflush {s : System A τ ω} (hb : s.ledger.Balanced)
    (hopen : s.cluster.items ≠ [] → s.cluster.first = false) (timer : Option ℕ)
    (inner : List (τ × Bool)) :
    (Kept (s.reflush d timer inner) ↔ inner = [] ∨ s.cluster.items = []) ∧
      (inner = [] ∨ s.cluster.items = [] → Inv (s.reflush d timer inner)) := by
  have hinv : inner = [] ∨ s.cluster.items = [] → Inv (s.reflush d timer inner) := by
    intro hsilent
    rw [reflush_silent d s timer hsilent]
    exact inv_flush d hb timer
  refine ⟨⟨?_, fun hsilent => (hinv hsilent).kept⟩, hinv⟩
  intro hkept
  by_contra hnot
  obtain ⟨hinner, hitems⟩ := not_or.mp hnot
  exact not_kept_reflush d hb (hopen hitems) timer hinner hitems hkept

lemma kept_recallback {s : System A τ ω} (h : Inv s) (id : ℕ) (inner : List (τ × Bool)) :
    (Kept (s.recallback d id inner) ↔ inner = [] ∨ s.cluster.items = []) ∧
      (inner = [] ∨ s.cluster.items = [] → Inv (s.recallback d id inner)) := by
  cases ha : s.cluster.timer.action with
  | some f =>
    have hflush : s.recallback d id inner = (s.running id).reflush d (some id) inner := by
      simp [recallback, running, timerTick, Timer.tick, ha]
    rw [hflush]
    exact kept_reflush d (s := s.running id) h.balanced h.items_open (some id) inner
  | none =>
    have hf := h.first_of_action ha
    have hnil := h.items_nil hf
    have hskip : s.recallback d id inner = s.running id := by
      simp [recallback, running, timerTick, Timer.tick, ha]
    have hinv : Inv (s.running id) := .of_first h.balanced hf hnil
    rw [hskip]
    exact ⟨iff_of_true hinv.kept (.inr hnil), fun _ => hinv⟩

lemma kept_restep {s s' : System A τ ω} {e : Reentrant τ} (h : Inv s)
    (hstep : s.restep d e = some s') : (Kept s' ↔ Silent s e) ∧ (Silent s e → Inv s') := by
  have hplain : Inv s' → Silent s e → (Kept s' ↔ Silent s e) ∧ (Silent s e → Inv s') :=
    fun hinv hsilent => ⟨iff_of_true hinv.kept hsilent, fun _ => hinv⟩
  cases e with
  | push value created =>
    obtain rfl := Option.some.inj hstep
    exact hplain (inv_push h value created) trivial
  | expire id =>
    obtain ⟨queue, hq, rfl⟩ := Option.map_eq_some_iff.mp hstep
    exact hplain { h with awaited := fun hf => awaited_expire hq (h.awaited hf) } trivial
  | callback id inner =>
    simp only [restep] at hstep
    split_ifs at hstep
    obtain rfl := Option.some.inj hstep
    exact kept_recallback d h id inner
  | flushAndReset inner =>
    obtain rfl := Option.some.inj hstep
    exact kept_reflush d h.balanced h.items_open none inner
  | reset =>
    obtain rfl := Option.some.inj hstep
    exact hplain (inv_reset d h) trivial

end System

/-- When items pushed back are kept: exactly in the runs in which no action that is handed a
batch pushes any. -/
theorem kept_iff_silent (action : A) (milliseconds : Int32) (es : List (Reentrant τ)) :
    Throughout (System.restep d) System.Kept (System.new τ action milliseconds) es ↔
      Along (System.restep d) System.Silent (System.new τ action milliseconds) es :=
  throughout_iff_along_of (I := System.Inv)
    (fun _ _ _ h _ hstep => System.kept_restep d h hstep) (System.inv_new action milliseconds)
    (System.inv_new action milliseconds).kept

/-- The action pushes 2 while it is handed 1. The item 2 is gone when the flush returns. -/
theorem pushed_back_not_kept :
    (run (System.restep (plainAction (List ℕ))) (System.new ℕ () 500)
        [.push 1 true, .flushAndReset [(2, true)]]).map
      (fun s => (s.handed, s.cluster.items, s.discarded)) = some ([[⟨1, 0⟩]], [], []) ∧
      ¬ Throughout (System.restep (plainAction (List ℕ))) System.Kept (System.new ℕ () 500)
        [.push 1 true, .flushAndReset [(2, true)]] := by
  refine ⟨rfl, ?_⟩
  intro hall
  have hkept := throughout_iff_prefix.mp hall _ List.prefix_rfl _ rfl
  rcases hkept ⟨2, 1⟩ (by decide) with h | ⟨h, -⟩ | h
  · exact absurd h (by decide)
  · exact absurd h (by decide)
  · exact absurd h (by decide)

end CppMisc.Stream
