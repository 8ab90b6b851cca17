import CppMisc.TimeClusterRuns

/-! Stale callbacks. `stop()` deletes a timer without waiting for a callback that has
been queued for it, and the function of the callback is the same for all timers of a
cluster, so a callback may find the cluster of a later timer. -/
namespace CppMisc.Stream
open BatchLedger Timers Runs

variable {A τ ω : Type*} (d : Downstream A (List τ) ω)

/-- Pushed at or after the `k`-th creation of a timer and before the next one. -/
def Owned (onceAt : List ℕ) (k : ℕ) (e : Entry τ) : Prop :=
  (∃ o, onceAt[k - 1]? = some o ∧ o ≤ e.serial) ∧ ∀ o, onceAt[k]? = some o → e.serial < o

namespace System

/-- Whatever a callback has handed downstream belonged to the cluster of its own timer. -/
def CallbacksOwn (s : System A τ ω) : Prop :=
  ∀ dl ∈ s.deliveries, ∀ k, dl.timer = some k → ∀ e ∈ dl.batch, Owned s.onceAt k e

/-- A callback runs for the timer created last, or finds no items. -/
def FreshCallback (s : System A τ ω) (e : Event τ) : Prop :=
  ∀ id, e = .callback id → id = s.queue.created ∨ s.cluster.items = []

/-- The record of the creations dates the items that are pending and those delivered. -/
structure Dated (s : System A τ ω) : Prop where
  length : s.onceAt.length = s.queue.created
  once_le : ∀ o ∈ s.onceAt, o ≤ s.pushed.length
  once_le_item : ∀ e ∈ s.cluster.items, ∀ o ∈ s.onceAt, o ≤ e.serial
  delivered_lt : ∀ dl ∈ s.deliveries, ∀ e ∈ dl.batch, e.serial < s.pushed.length

lemma dated_new (action : A) (milliseconds : Int32) :
    Dated (System.new τ action milliseconds : System A τ ω) := by
  constructor <;> simp [System.new, TimeCluster.new, TimerQueue.empty]

lemma dated_flush {s : System A τ ω} (hb : s.ledger.Balanced) (h : Dated s)
    (timer : Option ℕ) : Dated (s.flush d timer) := by
  obtain ⟨hl, -, hc, ho, hd⟩ := s.flush_spec d timer
  have hp : (s.flush d timer).pushed = s.pushed := congrArg Ledger.entered hl
  have hi : (s.flush d timer).cluster.items = [] := congrArg Ledger.pending hl
  refine ⟨by rw [ho, hc, h.length], by rw [ho, hp]; exact h.once_le, by simp [hi], ?_⟩
  rw [hd, hp]
  intro dl hdl e he
  rcases List.mem_append.mp hdl with hdl | hdl
  · exact h.delivered_lt dl hdl e he
  · obtain ⟨batch, hbatch, rfl⟩ := List.mem_map.mp hdl
    obtain ⟨rfl, -⟩ := mem_flushed.mp hbatch
    exact hb.pending_lt he

lemma dated_reset {s : System A τ ω} (h : Dated s) : Dated (s.reset d) := by
  obtain ⟨hl, -, hc, ho, hd⟩ := s.reset_spec d
  have hp : (s.reset d).pushed = s.pushed := congrArg Ledger.entered hl
  have hi : (s.reset d).cluster.items = [] := congrArg Ledger.pending hl
  exact ⟨by rw [ho, hc, h.length], by rw [ho, hp]; exact h.once_le, by simp [hi],
    by rw [hd, hp]; exact h.delivered_lt⟩

lemma dated_enter {s s' : System A τ ω} (h : Dated s) {value : τ}
    (hl : s'.ledger = s.ledger.enter value) (hd : s'.deliveries = s.deliveries)
    (hlen : s'.onceAt.length = s'.queue.created)
    (ho : s'.onceAt = s.onceAt ∨
      s.cluster.items = [] ∧ s'.onceAt = s.onceAt ++ [s.pushed.length]) : Dated s' := by
  have hp : s'.pushed = s.pushed ++ [s.ledger.next value] := congrArg Ledger.entered hl
  have hi : s'.cluster.items = s.cluster.items ++ [s.ledger.next value] :=
    congrArg Ledger.pending hl
  have hgrow : s.pushed.length ≤ s'.pushed.length := by simp [hp]
  have hbound : ∀ o ∈ s'.onceAt, o ≤ s.pushed.length := by
    intro o hmem
    rcases ho with ho | ⟨-, ho⟩
    · exact h.once_le o (ho ▸ hmem)
    · rw [ho] at hmem
      rcases List.mem_append.mp hmem with hmem | hmem
      · exact h.once_le o hmem
      · exact (List.mem_singleton.mp hmem).le
  refine ⟨hlen, fun o hmem => (hbound o hmem).trans hgrow, ?_, fun dl hdl e he =>
    (h.delivered_lt dl (hd ▸ hdl) e he).trans_le hgrow⟩
  rw [hi]
  intro e he o hmem
  rcases List.mem_append.mp he with he | he
  · rcases ho with ho | ⟨hnil, -⟩
    · exact h.once_le_item e he o (ho ▸ hmem)
    · simp [hnil] at he
  · obtain rfl := List.mem_singleton.mp he
    exact hbound o hmem

lemma dated_push {s : System A τ ω} (hinv : Inv s) (h : Dated s) (value : τ) (created : Bool) :
    Dated (s.push value created) := by
  cases hf : s.cluster.first with
  | false =>
    obtain ⟨hl, -, -, hq, ho, hd⟩ := s.push_next value created hf
    exact dated_enter h hl hd (by rw [ho, hq, h.length]) (.inl ho)
  | true =>
    cases created with
    | false =>
      obtain ⟨hl, -, hq, ho, hd⟩ := s.push_throw value hf
      have hp : (s.push value false).pushed = s.pushed := congrArg Ledger.entered hl
      have hi : (s.push value false).cluster.items = s.cluster.items := congrArg Ledger.pending hl
      exact ⟨by rw [ho, hq, h.length], by rw [ho, hp]; exact h.once_le,
        by rw [hi, ho]; exact h.once_le_item, by rw [hd, hp]; exact h.delivered_lt⟩
    | true =>
      obtain ⟨hl, -, -, hq, ho, hd⟩ := s.push_first value hf
      exact dated_enter h hl hd (by rw [ho, hq]; simp [TimerQueue.create, h.length])
        (.inr ⟨hinv.items_nil hf, ho⟩)

/-- What the runs of a cluster preserve: the account, the waiting and the dates. -/
structure Sound (s : System A τ ω) : Prop where
  inv : Inv s
  numbered : s.queue.Numbered
  dated : Dated s

lemma sound_new (action : A) (milliseconds : Int32) :
    Sound (System.new τ action milliseconds : System A τ ω) :=
  ⟨inv_new action milliseconds, TimerQueue.numbered_empty, dated_new action milliseconds⟩

lemma numbered_running {s : System A τ ω} (h : s.queue.Numbered) (id : ℕ) :
    (s.running id).queue.Numbered :=
  ⟨h.live_id, fun k hk => h.pending_id k (List.mem_of_mem_erase hk)⟩

lemma numbered_flush {s : System A τ ω} (h : s.queue.Numbered) (timer : Option ℕ) :
    (s.flush d timer).queue.Numbered := by
  have hq : (s.flush d timer).queue = (World.stop ⟨s.cluster.timer, s.queue⟩).queue := by
    cases hi : s.cluster.items <;>
      simp [flush, TimeCluster.flushAndReset, TimeCluster.reset, hi]
  rw [hq]
  exact World.stop_numbered h

lemma numbered_push {s : System A τ ω} (h : s.queue.Numbered) (value : τ) (created : Bool) :
    (s.push value created).queue.Numbered := by
  cases hf : s.cluster.first with
  | false => rw [(s.push_next value created hf).2.2.2.1]; exact h
  | true =>
    cases created with
    | false => rw [(s.push_throw value hf).2.2.1]; exact h
    | true => rw [(s.push_first value hf).2.2.2.1]; exact h.create _ _

lemma sound_callback {s : System A τ ω} (h : Sound s) (id : ℕ) : Sound (s.callback d id) := by
  have hinv := inv_callback d h.inv id
  have hnumbered := numbered_running h.numbered id
  have hdated : Dated (s.running id) := { h.dated with }
  cases ha : s.cluster.timer.action with
  | some f =>
    rw [callback_flush d s id ha] at hinv ⊢
    exact ⟨hinv, numbered_flush d hnumbered _,
      dated_flush d (s := s.running id) h.inv.balanced hdated _⟩
  | none =>
    rw [callback_skip d s id ha] at hinv ⊢
    exact ⟨hinv, hnumbered, hdated⟩

lemma sound_step {s s' : System A τ ω} {e : Event τ} (h : Sound s)
    (hs : s.step d e = some s') : Sound s' := by
  have hinv := inv_step d h.inv hs
  cases e with
  | push value created =>
    cases hs
    exact ⟨hinv, numbered_push h.numbered value created, dated_push h.inv h.dated value created⟩
  | expire id =>
    obtain ⟨queue, hq, rfl⟩ := step_expire d hs
    have hc : queue.created = s.queue.created := by
      unfold TimerQueue.expire at hq
      split_ifs at hq
      exact (Option.some.inj hq) ▸ rfl
    exact ⟨hinv, h.numbered.expire hq, { h.dated with length := h.dated.length.trans hc.symm }⟩
  | callback id =>
    obtain ⟨-, rfl⟩ := step_callback d hs
    exact sound_callback d h id
  | flushAndReset =>
    cases hs
    exact ⟨hinv, numbered_flush d h.numbered none, dated_flush d h.inv.balanced h.dated none⟩
  | reset =>
    cases hs
    exact ⟨hinv, World.stop_numbered h.numbered, dated_reset d h.dated⟩

lemma owned_append {onceAt : List ℕ} {k : ℕ} {e : Entry τ} {o : ℕ} (h : Owned onceAt k e)
    (he : e.serial < o) : Owned (onceAt ++ [o]) k e := by
  obtain ⟨⟨p, hp, hle⟩, hnext⟩ := h
  refine ⟨⟨p, ?_, hle⟩, fun q hq => ?_⟩
  · rw [List.getElem?_append_left (List.getElem?_eq_some_iff.mp hp).1, hp]
  · rcases Nat.lt_or_ge k onceAt.length with hk | hk
    · rw [List.getElem?_append_left hk] at hq
      exact hnext q hq
    · rw [List.getElem?_append_right hk, List.getElem?_singleton] at hq
      split_ifs at hq
      exact Option.some.inj hq ▸ he

/-- The items that a callback finds are its timer's exactly if there are none or its timer
is the one created last. -/
lemma items_owned_iff {s : System A τ ω} (h : Sound s) {id : ℕ} (hid : id ∈ s.queue.pending) :
    (∀ e ∈ s.cluster.items, Owned s.onceAt id e) ↔
      id = s.queue.created ∨ s.cluster.items = [] := by
  obtain ⟨hpos, hle⟩ := h.numbered.pending_id id hid
  have hlen := h.dated.length
  constructor
  · intro howned
    by_contra hstale
    obtain ⟨hne, hitems⟩ := not_or.mp hstale
    obtain ⟨e, he⟩ := List.exists_mem_of_ne_nil _ hitems
    -- the creation after that of the timer is not later than the item
    have hlt : id < s.onceAt.length := by omega
    have hafter := (howned e he).2 _ (List.getElem?_eq_getElem hlt)
    have hbefore := h.dated.once_le_item e he _ (List.getElem_mem hlt)
    omega
  · rintro (rfl | hnil) e he
    · have hlt : s.queue.created - 1 < s.onceAt.length := by omega
      refine ⟨⟨_, List.getElem?_eq_getElem hlt, h.dated.once_le_item e he _ (List.getElem_mem hlt)⟩,
        fun o ho => ?_⟩
      rw [List.getElem?_eq_none hlen.le] at ho
      cases ho
    · simp [hnil] at he

lemma callbacksOwn_flush {s : System A τ ω} (h : CallbacksOwn s) (timer : Option ℕ) :
    CallbacksOwn (s.flush d timer) ↔
      ∀ k, timer = some k → ∀ e ∈ s.cluster.items, Owned s.onceAt k e := by
  obtain ⟨-, -, -, ho, hd⟩ := s.flush_spec d timer
  unfold CallbacksOwn
  rw [ho, hd]
  constructor
  · intro hall k hk e he
    have hne : s.cluster.items ≠ [] := List.ne_nil_of_mem he
    refine hall ⟨timer, s.cluster.items⟩ (List.mem_append_right _ ?_) k hk e he
    exact List.mem_map_of_mem (mem_flushed.mpr ⟨rfl, hne⟩)
  · intro hnew dl hdl k hk e he
    rcases List.mem_append.mp hdl with hdl | hdl
    · exact h dl hdl k hk e he
    · obtain ⟨batch, hbatch, rfl⟩ := List.mem_map.mp hdl
      obtain ⟨rfl, -⟩ := mem_flushed.mp hbatch
      exact hnew k hk e he

lemma callbacksOwn_push {s : System A τ ω} (hs : Sound s) (h : CallbacksOwn s) (value : τ)
    (created : Bool) : CallbacksOwn (s.push value created) := by
  have hkeep : ∀ s' : System A τ ω, s'.deliveries = s.deliveries → s'.onceAt = s.onceAt →
      CallbacksOwn s' := fun s' hd ho => by
    unfold CallbacksOwn
    rw [hd, ho]
    exact h
  cases hf : s.cluster.first with
  | false =>
    obtain ⟨-, -, -, -, ho, hd⟩ := s.push_next value created hf
    exact hkeep _ hd ho
  | true =>
    cases created with
    | false =>
      obtain ⟨-, -, -, ho, hd⟩ := s.push_throw value hf
      exact hkeep _ hd ho
    | true =>
      obtain ⟨-, -, -, -, ho, hd⟩ := s.push_first value hf
      unfold CallbacksOwn
      rw [ho, hd]
      intro dl hdl k hk e he
      exact owned_append (h dl hdl k hk e he) (hs.dated.delivered_lt dl hdl e he)

lemma callbacksOwn_step {s s' : System A τ ω} {e : Event τ} (hs : Sound s)
    (h : CallbacksOwn s) (hstep : s.step d e = some s') :
    CallbacksOwn s' ↔ FreshCallback s e := by
  cases e with
  | push value created =>
    cases hstep
    exact ⟨fun _ id hid => (by cases hid), fun _ => callbacksOwn_push hs h value created⟩
  | expire id =>
    obtain ⟨queue, hq, rfl⟩ := step_expire d hstep
    exact ⟨fun _ id hid => (by cases hid), fun _ => h⟩
  | callback id =>
    obtain ⟨hid, rfl⟩ := step_callback d hstep
    have hfresh : FreshCallback s (.callback id) ↔
        id = s.queue.created ∨ s.cluster.items = [] :=
      ⟨fun hf => hf id rfl, fun hf _ he => by cases he; exact hf⟩
    rw [hfresh, ← items_owned_iff hs hid]
    cases ha : s.cluster.timer.action with
    | some f =>
      rw [callback_flush d s id ha, callbacksOwn_flush d (s := s.running id) h (some id)]
      exact ⟨fun hall => hall id rfl, fun hall k hk => Option.some.inj hk ▸ hall⟩
    | none =>
      rw [callback_skip d s id ha]
      have hnil := hs.inv.items_nil (hs.inv.first_of_action ha)
      exact ⟨fun _ e he => by simp [hnil] at he, fun _ => h⟩
  | flushAndReset =>
    cases hstep
    rw [callbacksOwn_flush d h none]
    exact ⟨fun _ id hid => (by cases hid), fun _ k hk => by cases hk⟩
  | reset =>
    cases hstep
    obtain ⟨-, -, -, ho, hd⟩ := s.reset_spec d
    have hkeep : CallbacksOwn (s.reset d) := by
      unfold CallbacksOwn
      rw [ho, hd]
      exact h
    exact ⟨fun _ id hid => (by cases hid), fun _ => hkeep⟩

end System

/-- The runs in which every callback flushes only the cluster that its own timer was armed
for are exactly those in which no callback of an earlier timer finds items. -/
theorem callbacksOwn_iff_fresh (action : A) (milliseconds : Int32) (es : List (Event τ)) :
    Throughout (System.step d) System.CallbacksOwn (System.new τ action milliseconds) es ↔
      Along (System.step d) System.FreshCallback (System.new τ action milliseconds) es := by
  exact throughout_iff_along (I := System.Sound) (fun _ _ _ h hs => System.sound_step d h hs)
    (fun _ _ _ h hown hs => System.callbacksOwn_step d h hown hs)
    (System.sound_new action milliseconds) (fun dl hdl => by cases hdl)

/-- A cluster that was reset between the expiry of its timer and the callback: the callback
flushes the cluster begun after it. -/
theorem callback_not_own :
    ¬ Throughout (System.step (plainAction (List ℕ))) System.CallbacksOwn (System.new ℕ () 500)
      [.push 1 true, .expire 1, .reset, .push 2 true, .callback 1] := by
  intro hall
  have h := throughout_iff_prefix.mp hall _ List.prefix_rfl _ rfl
  -- the second creation is before the item, so it is not of the first timer
  have howned := h ⟨some 1, [⟨2, 1⟩]⟩ (by decide) 1 rfl ⟨2, 1⟩ (by decide)
  exact absurd (howned.2 1 (by decide)) (by decide)

end CppMisc.Stream
