import CppMisc.StreamForgetful

/-! `reset()` on the head of a pipeline. The call travels through `Buffer` and `Window`
stages, which clear themselves and forward it, and ends at the first `Where` or `Select`,
whose `reset()` has an empty body. What lies behind keeps its items. -/
namespace CppMisc.Stream
open ListSegments

def Stage.forwards {α β : Type} : Stage α β → Bool
  | .where_ _ => false
  | .select _ => false
  | .buffer _ => true
  | .window _ => true

def Pipeline.Forwards {α β : Type} : Pipeline α β → Prop
  | .nil => True
  | .cons s p => s.forwards = true ∧ p.Forwards

/-- A pipeline whose first stage, if there is one, swallows `reset()`. -/
def Pipeline.Swallows {α β : Type} : Pipeline α β → Prop
  | .nil => True
  | .cons s _ => s.forwards = false

/-- The stages that a `reset()` on the head reaches, and the stages behind them. -/
structure Split {α β : Type} (p : Pipeline α β) where
  mid : Type
  front : Pipeline α mid
  back : Pipeline mid β
  front_forwards : front.Forwards
  back_swallows : back.Swallows
  append_eq : front.append back = p

def Pipeline.split {α β : Type} : (p : Pipeline α β) → Split p
  | .nil => ⟨α, .nil, .nil, trivial, trivial, rfl⟩
  | .cons s p =>
      if h : s.forwards = true then
        ⟨p.split.mid, .cons s p.split.front, p.split.back, ⟨h, p.split.front_forwards⟩,
          p.split.back_swallows, congrArg (Pipeline.cons s) p.split.append_eq⟩
      else ⟨_, .nil, .cons s p, trivial, by simpa [Pipeline.Swallows] using h, rfl⟩

lemma Split.positive {α β : Type} {p : Pipeline α β} (d : Split p) (hp : p.Positive) :
    d.front.Positive ∧ d.back.Positive := by
  rw [← d.append_eq] at hp
  exact (Pipeline.append_positive d.front d.back).mp hp

variable {ω : Type}

lemma Stage.reset_settle {α β : Type} (s : Stage α β) (hs : s.Positive)
    (hf : s.forwards = true) (xs : List α) (inner : Object ω β) :
    (s.settle xs inner).reset = s.settle [] inner.reset := by
  cases s with
  | where_ predicate => cases hf
  | select mapper => cases hf
  | buffer size =>
    have hle := (unfinished_length_lt hs xs).le
    simp only [settle, Object.reset, Vec.holding_clear hle, unfinished_nil]
  | window size =>
    have hle : (xs.rtake size).length ≤ size := by rw [rtake_length]; exact min_le_left _ _
    simp only [settle, Object.reset, Vec.holding_clear hle, List.rtake_nil]

lemma Pipeline.Forwards.reset_settle {α β : Type} {p : Pipeline α β} (hf : p.Forwards)
    (hp : p.Positive) (xs : List α) (inner : Object ω β) :
    (p.settle xs inner).reset = p.settle [] inner.reset := by
  induction p with
  | nil => rfl
  | cons s p ih =>
    simp only [settle, s.reset_settle hp.1 hf.1, ih hf.2 hp.2, s.meaning_nil]

lemma Pipeline.Swallows.reset_settle {α : Type} {p : Pipeline α ω} (hs : p.Swallows)
    (xs : List α) : (p.settle xs .action).reset = p.settle xs .action := by
  cases p with
  | nil => rfl
  | cons s p =>
    cases s with
    | where_ predicate => rfl
    | select mapper => rfl
    | buffer size => cases hs
    | window size => cases hs

lemma Split.reset_settle {α : Type} {p : Pipeline α ω} (d : Split p) (hp : p.Positive)
    (xs : List α) :
    (p.settle xs .action).reset =
      d.front.settle [] (d.back.settle (d.front.meaning xs) .action) := by
  conv_lhs => rw [← d.append_eq, Pipeline.append_settle]
  rw [d.front_forwards.reset_settle (d.positive hp).1, d.back_swallows.reset_settle]

/-- After `xs`, a `reset()` and `ys`, the action has received for `ys` what a newly built
copy of the pipeline delivers for `ys` alone. -/
def Restored (g : Growth) {α : Type} (b : Builder α ω) (xs ys : List α) : Prop :=
  ((b.close.pushAll g xs).1.reset.pushAll g ys).2 = (b.close.pushAll g ys).2

/-- The exact outcome of a run with a reset: the back has seen what reached it before. -/
theorem Split.pushAll_reset (g : Growth) {α : Type} {p : Pipeline α ω} (d : Split p)
    (hp : p.Positive) (xs ys : List α) :
    d.back.meaning (d.front.meaning xs ++ d.front.meaning ys) =
      d.back.meaning (d.front.meaning xs) ++
        (((p.settle [] .action).pushAll g xs).1.reset.pushAll g ys).2 := by
  obtain ⟨hfront, hback⟩ := d.positive hp
  rw [p.pushAll_fresh g hp, Object.action_pushAll, d.reset_settle hp,
    d.front.pushAll_fresh g hfront]
  obtain ⟨zs, hz, hpush⟩ := d.back.pushAll_settle g hback (d.front.meaning xs)
    (d.front.meaning ys) (.action : Object ω ω)
  rw [hz, hpush, Object.action_pushAll]

lemma Split.meaning_eq {α β : Type} {p : Pipeline α β} (d : Split p) (xs : List α) :
    p.meaning xs = d.back.meaning (d.front.meaning xs) := by
  rw [← Pipeline.append_meaning, d.append_eq]

lemma restored_iff_append (g : Growth) {α : Type} (b : Builder α ω) (hb : b.Positive)
    (d : Split b.stages) (xs ys : List α) :
    Restored g b xs ys ↔
      d.back.meaning (d.front.meaning xs ++ d.front.meaning ys) =
        d.back.meaning (d.front.meaning xs) ++ d.back.meaning (d.front.meaning ys) := by
  have hp := b.positive_stages.mpr hb
  rw [Restored, b.close_settle, b.stages.pushAll_closed g hp ys, d.pushAll_reset g hp xs ys,
    List.append_cancel_left_eq, d.meaning_eq]

/-- When a reset restores a pipeline. A run is restored exactly if the back treats the
items before and after the reset the same together and apart; all runs are if no stage of
the back remembers; and in a lossless pipeline they are only then. -/
theorem reset_restores_iff (g : Growth) {α : Type} (b : Builder α ω) (hb : b.Positive) :
    (∀ xs ys, Restored g b xs ys ↔
      b.stages.split.back.meaning
          (b.stages.split.front.meaning xs ++ b.stages.split.front.meaning ys) =
        b.stages.split.back.meaning (b.stages.split.front.meaning xs) ++
          b.stages.split.back.meaning (b.stages.split.front.meaning ys)) ∧
    (b.stages.split.back.Forgetful → ∀ xs ys, Restored g b xs ys) ∧
    (Nonempty α → b.stages.Lossless → (∀ xs ys, Restored g b xs ys) →
      b.stages.split.back.Forgetful) := by
  obtain ⟨hfront, hback⟩ := b.stages.split.positive (b.positive_stages.mpr hb)
  have hiff := restored_iff_append g b hb b.stages.split
  refine ⟨hiff, fun hf xs ys => (hiff xs ys).mpr (hf.meaning_append hback _ _), ?_⟩
  rintro ⟨a⟩ hl hall
  rw [← b.stages.split.append_eq, Pipeline.append_lossless] at hl
  by_contra hr
  obtain ⟨xs, ys, hne⟩ := hl.1.exists_append_ne hfront hl.2 hback hr a
  exact hne ((hiff xs ys).mp (hall xs ys))

def swallowingBuilder : Builder ℕ (List ℕ) :=
  .composition (.stage (.where_ fun _ => true)) (.stage (.buffer 2))

/-- The item pushed before the reset turns up in the batch after it. -/
theorem reset_not_restoring : ¬ Restored doubling swallowingBuilder [1] [2] := by
  unfold Restored
  decide

theorem reset_restores_main :
    Restored doubling swallowingBuilder [1, 2] [3, 4] ∧ Restored doubling mainBuilder [1] [4, 5] :=
  ⟨((reset_restores_iff doubling swallowingBuilder ⟨trivial, Nat.zero_lt_two⟩).1 _ _).mpr rfl,
    (reset_restores_iff doubling mainBuilder ⟨Nat.zero_lt_two, Nat.zero_lt_two⟩).2.1 trivial _ _⟩

end CppMisc.Stream
