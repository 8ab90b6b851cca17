import CppMisc.Monitors

/-! Where every call goes up in a hierarchy, no call waits for ever: some thread can always
move on, and each call is a bounded number of steps. Where a call comes back to a place whose
lock its own thread holds, it never gets past it, and neither does any other. -/
namespace CppMisc.Monitors
open Runs

variable {L : Type} {M : Net L} {T : Type}

lemma Kept.idle {s : State M T} (hk : Kept s) (h : ∀ t, s.thread t = none) : Idle s where
  thread := h
  owner l := by
    cases ho : s.owner l with
    | none => rfl
    | some t =>
      obtain ⟨-, a, ha, -⟩ := hk.owned l t ho
      rw [h t] at ha
      cases ha

/-- Two threads past the lock of the same place are one. -/
lemma Kept.holder_unique {s : State M T} (hk : Kept s) {t u : T} {a b : Active M}
    (ht : s.thread t = some a) (hu : s.thread u = some b) {f g : Frame M} (hf : f ∈ a.held)
    (hg : g ∈ b.held) (hfg : f.1 = g.1) (hguard : M.guarded f.1 = true) : t = u := by
  have hft := hk.owns t a ht f hf hguard
  have hgu := hk.owns u b hu g hg (hfg ▸ hguard)
  rw [hfg] at hft
  exact Option.some.inj (hft.symm.trans hgu)

/-- How many steps the call of a thread can still take. -/
def Hierarchy.left (H : Hierarchy M) (a : Active M) : ℕ :=
  match a.point with
  | .enter => 4 * (H.depth - H.rank a.top.1) + 2 * a.stack.length + 3
  | .body => 4 * (H.depth - H.rank a.top.1) + 2 * a.stack.length + 2
  | .back => 2 * a.stack.length + 2
  | .leave => 2 * a.stack.length + 1

def Hierarchy.stepsLeft (H : Hierarchy M) (s : State M T) (t : T) : ℕ :=
  ((s.thread t).map H.left).getD 0

lemma Hierarchy.left_pos (H : Hierarchy M) (a : Active M) : 0 < H.left a := by
  unfold left
  cases a.point <;> dsimp only <;> omega

lemma Hierarchy.stepsLeft_eq_zero (H : Hierarchy M) {s : State M T} {t : T} :
    H.stepsLeft s t = 0 ↔ s.thread t = none := by
  unfold stepsLeft
  cases ht : s.thread t with
  | none => simp
  | some a =>
    have hpos := H.left_pos a
    simp only [Option.map_some, Option.getD_some, reduceCtorEq, iff_false]
    omega

variable [DecidableEq L] [DecidableEq T]

/-- Some thread can move on: the one that is furthest up. -/
lemma Kept.exists_advance (H : Hierarchy M) {s : State M T} (hk : Kept s) {t : T}
    {a : Active M} (ht : s.thread t = some a) : ∃ u s', step s (.advance u) = some s' := by
  induction hn : H.depth - H.rank a.top.1 using Nat.strong_induction_on generalizing t a with
  | _ n ih =>
    by_cases hmove : ∃ s', step s (.advance t) = some s'
    · exact ⟨t, hmove⟩
    · -- the thread waits for a lock, whose owner is further up or can move on
      simp only [step, ht, Option.bind_some] at hmove
      have hp : a.point = .enter := by
        by_contra hp
        apply hmove
        unfold advance
        cases hpoint : a.point with
        | enter => exact absurd hpoint hp
        | body => exact ⟨_, rfl⟩
        | back => exact ⟨_, rfl⟩
        | leave => exact ⟨_, rfl⟩
      simp only [advance, hp, lock] at hmove
      split_ifs at hmove with hg hfree
      · exact absurd ⟨_, rfl⟩ hmove
      · obtain ⟨u, hu⟩ := Option.ne_none_iff_exists'.mp hfree
        obtain ⟨-, b, hb, f, hf, hfl⟩ := hk.owned _ u hu
        by_cases hpb : b.point = .enter
        · have hin : f ∈ b.stack := by simpa [Active.held, hpb] using hf
          have hlt := (List.pairwise_cons.mp (H.sorted (hk.chain u b hb))).1 f hin
          have hle := H.rank_le b.top.1
          rw [hfl] at hlt
          exact ih _ (by omega) hb rfl
        · refine ⟨u, ?_⟩
          simp only [step, hb, Option.bind_some, advance]
          cases hpoint : b.point with
          | enter => exact absurd hpoint hpb
          | body => exact ⟨_, rfl⟩
          | back => exact ⟨_, rfl⟩
          | leave => exact ⟨_, rfl⟩
      · exact absurd ⟨_, rfl⟩ hmove

lemma Hierarchy.left_advance (H : Hierarchy M) {s s' : State M T} {t : T}
    (h : step s (.advance t) = some s') : H.stepsLeft s' t < H.stepsLeft s t := by
  obtain ⟨a, ht, ⟨hp, h⟩ | ⟨hp, rfl⟩ | ⟨hp, rfl⟩ | ⟨hp, rfl⟩⟩ := advance_cases h
  · simp [stepsLeft, ht, thread_lock h, left, hp]
  · cases hg : (M.accept a.top.1 (s.cell a.top.1) a.top.2).2 with
    | none => simp [stepsLeft, ht, body, hg, afterBody, left, hp]
    | some g =>
      have hlt := H.rank_lt _ _ _ _ hg
      have hle := H.rank_le g.1
      simp only [stepsLeft, ht, body, hg, afterBody, left, hp, Function.update_self,
        Option.map_some, Option.getD_some, List.length_cons]
      omega
  · simp [stepsLeft, ht, back, left, hp]
  · cases hst : a.stack with
    | nil => simp [stepsLeft, ht, unlock, hst, afterUnlock, left, hp]
    | cons f stack =>
      simp only [stepsLeft, ht, unlock, hst, afterUnlock, left, hp, Function.update_self,
        Option.map_some, Option.getD_some, List.length_cons]
      omega

/-- A call is at most four steps for each place that it goes through, and one less. -/
lemma Hierarchy.stepsLeft_call (H : Hierarchy M) {s s' : State M T} {t : T} {f : Frame M}
    (h : step s (.call t f) = some s') : H.stepsLeft s' t ≤ 4 * H.depth + 3 := by
  simp only [step, Option.isNone_iff_eq_none] at h
  split_ifs at h with ht
  obtain rfl := Option.some.inj h
  simp only [stepsLeft, left, Function.update_self, Option.map_some, Option.getD_some,
    List.length_nil]
  omega

lemma Hierarchy.stepsLeft_run (H : Hierarchy M) {s s' : State M T} {es : List (Event M T)}
    (h : run step s es = some s') (hs : Idle s) (t : T) : H.stepsLeft s' t ≤ 4 * H.depth + 3 := by
  refine run_invariant (I := fun s => ∀ t, H.stepsLeft s t ≤ 4 * H.depth + 3) ?_ h ?_ t
  · intro s e s' hi he t
    cases e with
    | call u f =>
      by_cases htu : t = u
      · exact htu ▸ H.stepsLeft_call he
      · have hsame : s'.thread t = s.thread t := by
          simp only [step, Option.isNone_iff_eq_none] at he
          split_ifs at he
          obtain rfl := Option.some.inj he
          exact Function.update_of_ne htu ..
        rw [stepsLeft, hsame]
        exact hi t
    | advance u =>
      by_cases htu : t = u
      · exact htu ▸ (H.left_advance he).le.trans (hi u)
      · rw [stepsLeft, thread_advance he htu]
        exact hi t
  · intro u
    rw [H.stepsLeft_eq_zero.mpr (hs.thread u)]
    exact Nat.zero_le _

/-- Each thread moves on at most as often as its call has steps left. -/
theorem count_advance_le (H : Hierarchy M) {s s' : State M T} {ts : List T}
    (h : run step s (ts.map .advance) = some s') (t : T) :
    ts.count t + H.stepsLeft s' t ≤ H.stepsLeft s t := by
  induction ts generalizing s with
  | nil => cases h; simp
  | cons u ts ih =>
    obtain ⟨s₁, hs₁, hrest⟩ := Option.bind_eq_some_iff.mp h
    have hle := ih hrest
    by_cases htu : t = u
    · subst htu
      have hlt := H.left_advance hs₁
      rw [List.count_cons_self]
      omega
    · have hsame : H.stepsLeft s₁ t = H.stepsLeft s t := by
        rw [Hierarchy.stepsLeft, thread_advance hs₁ htu, Hierarchy.stepsLeft]
      rw [List.count_cons_of_ne (Ne.symm htu)]
      omega

/-- From every state of a run, the calls that are in progress can be brought to their end. -/
theorem exists_finish (H : Hierarchy M) {s : State M T} (hk : Kept s) (A : Finset T)
    (hA : ∀ t, s.thread t ≠ none → t ∈ A) :
    ∃ (ts : List T) (s' : State M T), run step s (ts.map .advance) = some s' ∧ Idle s' := by
  induction hn : ∑ t ∈ A, H.stepsLeft s t using Nat.strong_induction_on generalizing s with
  | _ n ih =>
    by_cases hidle : ∀ t, s.thread t = none
    · exact ⟨[], s, rfl, hk.idle hidle⟩
    · obtain ⟨t, ht⟩ := not_forall.mp hidle
      obtain ⟨a, ha⟩ := Option.ne_none_iff_exists'.mp ht
      obtain ⟨u, s₁, hs₁⟩ := hk.exists_advance H ha
      have hu : s.thread u ≠ none := by
        obtain ⟨b, hb, -⟩ := advance_cases hs₁
        rw [hb]
        exact Option.some_ne_none b
      have hothers : ∀ v, v ≠ u → s₁.thread v = s.thread v := fun v hv => thread_advance hs₁ hv
      have hlt : ∑ t ∈ A, H.stepsLeft s₁ t < n := by
        rw [← hn]
        refine Finset.sum_lt_sum (fun v _ => ?_) ⟨u, hA u hu, H.left_advance hs₁⟩
        by_cases hv : v = u
        · rw [hv]
          exact (H.left_advance hs₁).le
        · rw [Hierarchy.stepsLeft, hothers v hv, Hierarchy.stepsLeft]
      have hA₁ : ∀ v, s₁.thread v ≠ none → v ∈ A := by
        intro v hv
        by_cases hvu : v = u
        · exact hvu ▸ hA u hu
        · exact hA v (hothers v hvu ▸ hv)
      obtain ⟨ts, s', hrun, hs'⟩ := ih _ hlt (kept_step hk hs₁) hA₁ rfl
      exact ⟨u :: ts, s', by simp [hs₁, hrun], hs'⟩

/-! A call that comes back to a place whose lock its own thread holds. -/

/-- The thread waits for a lock that it holds itself. -/
structure Stuck (s : State M T) (t : T) (a : Active M) : Prop where
  thread : s.thread t = some a
  point : a.point = .enter
  owner : s.owner a.top.1 = some t

lemma stuck_step {s s' : State M T} (hk : Kept s) {t : T} {a : Active M} (h : Stuck s t a)
    {e : Event M T} (he : step s e = some s') : Stuck s' t a := by
  have hg := (hk.owned _ t h.owner).1
  cases e with
  | call u f =>
    simp only [step, Option.isNone_iff_eq_none] at he
    split_ifs at he with hu
    obtain rfl := Option.some.inj he
    have hut : t ≠ u := by
      rintro rfl
      have ht := h.thread
      rw [hu] at ht
      cases ht
    exact ⟨(Function.update_of_ne hut ..).trans h.thread, h.point, h.owner⟩
  | advance u =>
    have hut : t ≠ u := by
      rintro rfl
      obtain ⟨b, hb, hcases⟩ := advance_cases he
      obtain rfl := Option.some.inj (h.thread.symm.trans hb)
      rcases hcases with ⟨-, hlock⟩ | ⟨hp, -⟩ | ⟨hp, -⟩ | ⟨hp, -⟩
      · simp [lock, hg, h.owner] at hlock
      all_goals exact absurd (h.point.symm.trans hp) (by simp)
    refine ⟨(thread_advance he hut).trans h.thread, h.point, ?_⟩
    obtain ⟨b, hb, ⟨hp, hlock⟩ | ⟨hp, rfl⟩ | ⟨hp, rfl⟩ | ⟨hp, rfl⟩⟩ := advance_cases he
    · unfold lock at hlock
      dsimp only at hlock
      split_ifs at hlock with hgb hfree
      · obtain rfl := Option.some.inj hlock
        have hne : a.top.1 ≠ b.top.1 := by
          intro heq
          rw [← heq, h.owner] at hfree
          cases hfree
        exact (Function.update_of_ne hne ..).trans h.owner
      · obtain rfl := Option.some.inj hlock
        exact h.owner
    · exact h.owner
    · exact h.owner
    · have hne : M.guarded b.top.1 = true → a.top.1 ≠ b.top.1 := by
        intro hgb heq
        have hown := hk.owns u b hb b.top (by simp [Active.held, hp]) hgb
        rw [← heq, h.owner] at hown
        exact hut (Option.some.inj hown)
      unfold unlock
      dsimp only
      split_ifs with hgb
      · exact (Function.update_of_ne (hne hgb) ..).trans h.owner
      · exact h.owner

/-- The thread never moves on, and the lock is never released. -/
theorem stuck_run {s s' : State M T} (hk : Kept s) {t : T} {a : Active M} (h : Stuck s t a)
    {es : List (Event M T)} (hrun : run step s es = some s') : Stuck s' t a :=
  (run_invariant (I := fun s => Kept s ∧ Stuck s t a)
    (fun _ _ _ hi he => ⟨kept_step hi.1 he, stuck_step hi.1 hi.2 he⟩) hrun ⟨hk, h⟩).2

end CppMisc.Monitors
