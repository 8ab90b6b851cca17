import CppMisc.TimerModel

/-! The account that a `Timer` keeps of its timer in the queue. `init` clears `disposed_`
before it knows whether there is a timer and overwrites the handle, so the account is
exact for some sequences of calls only; here are exactly those. -/
namespace CppMisc.Timers

variable {A : Type*}

/-- At most one live timer, none of the deletions went to a handle that is not one of a
live timer, and none is live once stopped. -/
def Exact (w : World A) (stopped : Bool) : Prop :=
  w.queue.live.length ≤ 1 ∧ w.queue.stale = [] ∧ (stopped = true → w.queue.live = [])

/-- The account is exact after each of the calls and after the destruction that follows. -/
def Kept : World A → List (Call A) → Prop
  | w, [] => Exact w.destroy true
  | w, c :: cs => Exact (w.apply c) c.isStop ∧ Kept (w.apply c) cs

def World.new : World A := ⟨Timer.new, TimerQueue.empty⟩

/-- Between one stop and the next, with the construction and the destruction as the
first and the last, either nothing is started or exactly one start creates a timer. -/
def Paired (calls : List (Call A)) : Prop :=
  ∀ seg ∈ calls.splitOnP Call.isStop, seg = [] ∨ seg.countP Call.creates = 1

instance (calls : List (Call A)) : Decidable (Paired calls) :=
  inferInstanceAs (Decidable (∀ seg ∈ calls.splitOnP Call.isStop, seg = [] ∨ _))

inductive Phase
  | idle
  | held
  | broken
  deriving DecidableEq

/-- Nothing started; a timer held; `disposed_` cleared by an `init` that then threw. -/
def InPhase (w : World A) : Phase → Prop
  | .idle => w.timer.disposed = true ∧ w.queue.live = [] ∧ w.queue.stale = []
  | .held => w.timer.disposed = false ∧ w.queue.stale = [] ∧
      ∃ t, w.queue.live = [t] ∧ w.timer.timerHandle = .timer t.id
  | .broken => w.timer.disposed = false ∧ w.queue.live = [] ∧ w.queue.stale = []

/-- The next phase; `none` where the call spoils the account. -/
def Phase.next (c : Call A) : Phase → Option Phase
  | .idle => if c.isStop then some .idle else if c.creates then some .held else some .broken
  | .held => if c.isStop then some .idle else if c.creates then none else some .held
  | .broken => if c.isStop then none else if c.creates then some .held else some .broken

lemma apply_start (w : World A) {c : Call A} (hc : c.isStop = false) :
    (w.apply c).timer.disposed = false ∧
      if c.creates then
        (∃ d p, (w.apply c).queue = w.queue.create d p) ∧
          (w.apply c).timer.timerHandle = .timer (w.queue.created + 1)
      else (w.apply c).queue = w.queue ∧ (w.apply c).timer.timerHandle = w.timer.timerHandle := by
  cases c with
  | start startMilli repeatMilli action created =>
    cases created
    · exact ⟨rfl, rfl, rfl⟩
    · exact ⟨rfl, ⟨_, _, rfl⟩, rfl⟩
  | startEvery milli action created =>
    cases created
    · exact ⟨rfl, rfl, rfl⟩
    · exact ⟨rfl, ⟨_, _, rfl⟩, rfl⟩
  | once milli action created =>
    cases created
    · exact ⟨rfl, rfl, rfl⟩
    · exact ⟨rfl, ⟨_, _, rfl⟩, rfl⟩
  | stop => cases hc

lemma stop_spec {w : World A} {ph : Phase} (h : InPhase w ph) :
    if ph = .broken then w.stop.queue.stale ≠ [] else InPhase w.stop .idle := by
  cases ph with
  | idle =>
    obtain ⟨hd, hl, hs⟩ := h
    simp [World.stop, hd, InPhase, hl, hs]
  | held =>
    obtain ⟨hd, hs, t, hl, ht⟩ := h
    simp [World.stop, hd, InPhase, TimerQueue.delete, TimerQueue.isLive, hl, ht, hs]
  | broken =>
    obtain ⟨hd, hl, hs⟩ := h
    cases hh : w.timer.timerHandle <;>
      simp [World.stop, hd, TimerQueue.delete, TimerQueue.isLive, hl, hh]

/-- One call: the phases say whether the account survives it and where it leads. -/
lemma apply_spec {w : World A} {ph : Phase} (h : InPhase w ph) (c : Call A) :
    match ph.next c with
    | some ph' => InPhase (w.apply c) ph' ∧ Exact (w.apply c) c.isStop
    | none => ¬ Exact (w.apply c) c.isStop := by
  cases hc : c.isStop with
  | true =>
    obtain rfl : c = .stop := by cases c <;> first | rfl | cases hc
    have hstop := stop_spec h
    cases ph with
    | broken => exact fun he => hstop he.2.1
    | idle => exact ⟨hstop, by simp [World.apply, Exact, hstop.2.1, hstop.2.2]⟩
    | held => exact ⟨hstop, by simp [World.apply, Exact, hstop.2.1, hstop.2.2]⟩
  | false =>
    obtain ⟨hd, hrest⟩ := apply_start w hc
    cases hcr : c.creates with
    | true =>
      obtain ⟨⟨d, p, hq⟩, hh⟩ := by simpa [hcr] using hrest
      cases ph with
      | idle =>
        simp [Phase.next, hc, hcr, InPhase, Exact, hd, hq, hh, TimerQueue.create, h.2.1, h.2.2]
      | broken =>
        simp [Phase.next, hc, hcr, InPhase, Exact, hd, hq, hh, TimerQueue.create, h.2.1, h.2.2]
      | held =>
        obtain ⟨-, -, t, hl, -⟩ := h
        simp [Phase.next, hc, hcr, Exact, hq, TimerQueue.create, hl]
    | false =>
      obtain ⟨hq, hh⟩ := by simpa [hcr] using hrest
      cases ph with
      | idle => simp [Phase.next, hc, hcr, InPhase, Exact, hd, hq, h.2.1, h.2.2]
      | broken => simp [Phase.next, hc, hcr, InPhase, Exact, hd, hq, h.2.1, h.2.2]
      | held =>
        obtain ⟨-, hs, t, hl, ht⟩ := h
        simp [Phase.next, hc, hcr, InPhase, Exact, hd, hq, hh, hl, ht, hs]

def Phase.accepts : Phase → List (Call A) → Prop
  | ph, [] => ph ≠ .broken
  | ph, c :: cs =>
    match ph.next c with
    | some ph' => ph'.accepts cs
    | none => False

lemma kept_iff_accepts {w : World A} {ph : Phase} (h : InPhase w ph) (calls : List (Call A)) :
    Kept w calls ↔ ph.accepts calls := by
  induction calls generalizing w ph with
  | nil =>
    have hstop := stop_spec h
    cases ph with
    | broken => exact ⟨fun he => absurd he.2.1 hstop, fun hne => absurd rfl hne⟩
    | idle =>
      refine ⟨fun _ => by simp [Phase.accepts], fun _ => ?_⟩
      simp [Kept, World.destroy, Exact, hstop.2.1, hstop.2.2]
    | held =>
      refine ⟨fun _ => by simp [Phase.accepts], fun _ => ?_⟩
      simp [Kept, World.destroy, Exact, hstop.2.1, hstop.2.2]
  | cons c cs ih =>
    have hspec := apply_spec h c
    simp only [Kept, Phase.accepts]
    cases hn : ph.next c with
    | none =>
      rw [hn] at hspec
      exact ⟨fun hk => hspec hk.1, False.elim⟩
    | some ph' =>
      rw [hn] at hspec
      exact ⟨fun hk => (ih hspec.1).mp hk.2, fun ha => ⟨hspec.2, (ih hspec.1).mpr ha⟩⟩

def Phase.ofStarts (seg : List (Call A)) : Phase :=
  if seg = [] then .idle else if seg.countP Call.creates = 0 then .broken else .held

lemma Phase.ofStarts_ne_broken {seg : List (Call A)} (hone : seg.countP Call.creates ≤ 1) :
    Phase.ofStarts seg ≠ .broken ↔ seg = [] ∨ seg.countP Call.creates = 1 := by
  unfold ofStarts
  split_ifs with h1 h2
  · simp [h1]
  · simp [h1, h2]
  · simp only [ne_eq, reduceCtorEq, not_false_eq_true, true_iff]
    exact .inr (by omega)

lemma Phase.next_ofStarts {seg : List (Call A)} {c : Call A} (hc : c.isStop = false)
    (hone : (seg ++ [c]).countP Call.creates ≤ 1) :
    (Phase.ofStarts seg).next c = some (Phase.ofStarts (seg ++ [c])) := by
  rw [List.countP_append, List.countP_singleton] at hone
  cases hcr : c.creates with
  | true =>
    have hz : seg.countP Call.creates = 0 := by rw [if_pos hcr] at hone; omega
    by_cases hseg : seg = []
    · simp [ofStarts, next, hc, hcr, hseg]
    · simp [ofStarts, next, hc, hcr, hseg, hz, List.countP_append]
  | false =>
    by_cases hseg : seg = []
    · simp [ofStarts, next, hc, hcr, hseg]
    · by_cases hz : seg.countP Call.creates = 0
      · simp [ofStarts, next, hc, hcr, hseg, hz, List.countP_append]
      · simp [ofStarts, next, hc, hcr, hseg, hz, List.countP_append]

lemma splitOnP_head {seg : List (Call A)} (hseg : ∀ c ∈ seg, c.isStop = false)
    (calls : List (Call A)) :
    ∃ tail rest, (seg ++ calls).splitOnP Call.isStop = (seg ++ tail) :: rest := by
  induction seg with
  | nil =>
    obtain ⟨tail, rest, h⟩ := List.exists_cons_of_ne_nil (List.splitOnP_ne_nil Call.isStop calls)
    exact ⟨tail, rest, h⟩
  | cons c seg ih =>
    obtain ⟨tail, rest, h⟩ := ih fun d hd => hseg d (List.mem_cons_of_mem c hd)
    refine ⟨tail, rest, ?_⟩
    simp [List.splitOnP_cons_eq_if_modifyHead, hseg c (by simp), h]

/-- The phases accept what is left of a sequence whose last segment so far is `seg`
exactly if every segment is empty or has one creation. -/
lemma accepts_iff_segments (calls seg : List (Call A)) (hseg : ∀ c ∈ seg, c.isStop = false)
    (hone : seg.countP Call.creates ≤ 1) :
    (Phase.ofStarts seg).accepts calls ↔ Paired (seg ++ calls) := by
  induction calls generalizing seg with
  | nil =>
    simp [Phase.accepts, Phase.ofStarts_ne_broken hone, Paired, List.splitOnP_eq_singleton hseg]
  | cons c cs ih =>
    cases hc : c.isStop with
    | true =>
      have hempty : Phase.idle.accepts cs ↔ Paired cs := ih [] (by simp) (by simp)
      rw [Paired, List.splitOnP_append_cons_of_forall_mem hseg c hc, List.forall_mem_cons,
        ← Phase.ofStarts_ne_broken hone]
      cases hph : Phase.ofStarts seg with
      | idle => simpa [Phase.accepts, Phase.next, hc, Paired] using hempty
      | held => simpa [Phase.accepts, Phase.next, hc, Paired] using hempty
      | broken => simp [Phase.accepts, Phase.next, hc]
    | false =>
      have hsnoc : seg ++ c :: cs = (seg ++ [c]) ++ cs := by simp
      have hseg' : ∀ d ∈ seg ++ [c], d.isStop = false := by
        simpa [or_imp, forall_and] using ⟨hseg, hc⟩
      rcases Nat.lt_or_ge 1 ((seg ++ [c]).countP Call.creates) with htwo | hone'
      · -- a second creation without a stop in between
        have hcr : c.creates = true := by
          by_contra hcr
          simp [List.countP_append, hcr] at htwo
          omega
        have hheld : Phase.ofStarts seg = .held := by
          have hz : seg.countP Call.creates ≠ 0 := by
            intro hz
            simp [List.countP_append, hcr, hz] at htwo
          have hne : seg ≠ [] := fun he => hz (by simp [he])
          simp [Phase.ofStarts, hne, hz]
        obtain ⟨tail, rest, hsplit⟩ := splitOnP_head hseg' cs
        rw [hsnoc, Paired, hsplit]
        simp only [hheld, Phase.accepts, Phase.next, hc, hcr, List.forall_mem_cons]
        simp only [List.countP_append] at htwo ⊢
        constructor
        · exact False.elim
        · rintro ⟨hnil | hcount, -⟩
          · simp at hnil
          · omega
      · rw [hsnoc, ← ih (seg ++ [c]) hseg' hone', Phase.accepts, Phase.next_ofStarts hc hone']

/-- When the account is kept: exactly for the sequences of calls in which every start or
run of failing starts is paired with one stop. -/
theorem kept_iff_paired (calls : List (Call A)) : Kept World.new calls ↔ Paired calls := by
  have hidle : InPhase (World.new : World A) .idle := ⟨rfl, rfl, rfl⟩
  rw [kept_iff_accepts hidle]
  exact accepts_iff_segments calls [] (by simp) (by simp)

/-- Two creations without a `stop`: the first timer stays live when the object is gone. -/
theorem start_twice_not_kept :
    ¬ Kept World.new [Call.once 500 () true, Call.once 500 () true] := by
  intro h
  have hlen := h.2.1.1
  revert hlen
  decide

end CppMisc.Timers
