import CppMisc.ListSegments
import CppMisc.StreamPipeline

/-! Pipelines as list transformers. A builder flattens to its stages in pipeline order,
each stage denotes a function on lists, and an object that has been fed a list is
determined by that list: `settled` computes it, and one pushed item keeps it settled. -/
namespace CppMisc.Stream
open ListSegments

inductive Pipeline : Type → Type → Type 1
  | nil {α : Type} : Pipeline α α
  | cons {α β γ : Type} (s : Stage α β) (p : Pipeline β γ) : Pipeline α γ

def Pipeline.append {α β γ : Type} : Pipeline α β → Pipeline β γ → Pipeline α γ
  | .nil, q => q
  | .cons s p, q => .cons s (p.append q)

def Builder.stages {α β : Type} : Builder α β → Pipeline α β
  | .stage s => .cons s .nil
  | .composition first second => first.stages.append second.stages

def Stage.meaning {α β : Type} : Stage α β → List α → List β
  | .where_ predicate, xs => xs.filter predicate
  | .select mapper, xs => xs.map mapper
  | .buffer size, xs => fullChunks size xs
  | .window size, xs => slidingWindows size xs

/-- The composition, in pipeline order, of the list functions of the stages. -/
def Pipeline.meaning {α β : Type} : Pipeline α β → List α → List β
  | .nil, xs => xs
  | .cons s p, xs => p.meaning (s.meaning xs)

def Stage.Positive {α β : Type} : Stage α β → Prop
  | .where_ _ => True
  | .select _ => True
  | .buffer size => 0 < size
  | .window size => 0 < size

def Pipeline.Positive {α β : Type} : Pipeline α β → Prop
  | .nil => True
  | .cons s p => s.Positive ∧ p.Positive

def Builder.Positive {α β : Type} : Builder α β → Prop
  | .stage s => s.Positive
  | .composition first second => first.Positive ∧ second.Positive

variable {ω : Type}

def Pipeline.build {α β : Type} : Pipeline α β → Object ω β → Object ω α
  | .nil, inner => inner
  | .cons s p, inner => s.build (p.build inner)

lemma Pipeline.append_build {α β γ : Type} (p : Pipeline α β) (q : Pipeline β γ)
    (inner : Object ω γ) : (p.append q).build inner = p.build (q.build inner) := by
  induction p with
  | nil => rfl
  | cons s p ih => simp only [append, build, ih]

lemma Pipeline.append_meaning {α β γ : Type} (p : Pipeline α β) (q : Pipeline β γ)
    (xs : List α) : (p.append q).meaning xs = q.meaning (p.meaning xs) := by
  induction p with
  | nil => rfl
  | cons s p ih => exact ih q (s.meaning xs)

lemma Pipeline.append_positive {α β γ : Type} (p : Pipeline α β) (q : Pipeline β γ) :
    (p.append q).Positive ↔ p.Positive ∧ q.Positive := by
  induction p with
  | nil => simp [append, Positive]
  | cons s p ih => simp only [append, Positive, ih, and_assoc]

lemma Builder.build_stages {α β : Type} (b : Builder α β) (inner : Object ω β) :
    b.build inner = b.stages.build inner := by
  induction b with
  | stage s => rfl
  | composition first second ihf ihs =>
    simp only [build, stages, Pipeline.append_build, ihf, ihs]

lemma Builder.positive_stages {α β : Type} (b : Builder α β) :
    b.stages.Positive ↔ b.Positive := by
  induction b with
  | stage s => simp [stages, Pipeline.Positive, Positive]
  | composition first second ihf ihs =>
    simp only [stages, Positive, Pipeline.append_positive, ihf, ihs]

/-- A vector that was reserved for `n` items and now holds `xs`. -/
def Vec.holding {τ : Type} (n : ℕ) (xs : List τ) : Vec τ := ⟨xs, max n xs.length, le_max_right _ _⟩

@[simp] lemma Vec.holding_items {τ : Type} (n : ℕ) (xs : List τ) :
    (Vec.holding n xs).items = xs := rfl

lemma Vec.reserve_eq_holding {τ : Type} (n : ℕ) :
    (Vec.empty : Vec τ).reserve n = Vec.holding n [] :=
  Vec.ext rfl (by simp [holding])

lemma Vec.holding_capacity {τ : Type} {n : ℕ} {xs : List τ} (h : xs.length ≤ n) :
    (Vec.holding n xs).capacity = n := max_eq_left h

lemma Vec.holding_full {τ : Type} {n : ℕ} {xs : List τ} (h : xs.length ≤ n) :
    (Vec.holding n xs).full = decide (n ≤ xs.length) := by
  simp [full, holding_capacity h, size]

lemma Vec.holding_clear {τ : Type} {n : ℕ} {xs : List τ} (h : xs.length ≤ n) :
    (Vec.holding n xs).clear = Vec.holding n [] :=
  Vec.ext rfl (by simp [holding, h])

lemma Vec.holding_pushBack {τ : Type} (g : Growth) {n : ℕ} {xs : List τ}
    (h : xs.length < n) (x : τ) :
    (Vec.holding n xs).pushBack g x = Vec.holding n (xs ++ [x]) := by
  have hcap := Vec.holding_capacity h.le
  refine Vec.ext (by simp) ?_
  rw [Vec.pushBack_capacity g (by rw [hcap]; exact h), hcap,
    Vec.holding_capacity (by simpa using h)]

lemma Vec.holding_eraseBegin {τ : Type} {n : ℕ} {xs : List τ} (h : xs.length ≤ n) :
    (Vec.holding n xs).eraseBegin = Vec.holding n xs.tail := by
  refine Vec.ext rfl ?_
  rw [Vec.eraseBegin_capacity, Vec.holding_capacity h, Vec.holding_capacity]
  simp only [List.length_tail]
  omega

lemma windowAccept_holding {τ : Type} (g : Growth) {n : ℕ} (hn : 0 < n) (xs : List τ) (x : τ) :
    windowAccept g (Vec.holding n (xs.rtake n)) x = Vec.holding n ((xs ++ [x]).rtake n) := by
  have hlen := rtake_length n xs
  unfold windowAccept
  rw [rtake_concat hn, Vec.holding_full (by omega)]
  by_cases hfull : n ≤ (xs.rtake n).length
  · rw [if_pos (by simpa using hfull), if_pos hfull, Vec.holding_eraseBegin (by omega)]
    refine Vec.holding_pushBack g ?_ x
    simp only [List.length_tail]
    omega
  · rw [if_neg (by simpa using hfull), if_neg hfull]
    exact Vec.holding_pushBack g (by omega) x

/-- A stage that has seen `xs`, around the object that it feeds. -/
def Stage.settle {α β : Type} : Stage α β → List α → Object ω β → Object ω α
  | .where_ predicate, _, inner => .where_ inner predicate
  | .select mapper, _, inner => .select inner mapper
  | .buffer size, xs, inner => .buffer inner (Vec.holding size (unfinished size xs))
  | .window size, xs, inner => .window inner (Vec.holding size (xs.rtake size))

def Pipeline.settle {α β : Type} : Pipeline α β → List α → Object ω β → Object ω α
  | .nil, _, inner => inner
  | .cons s p, xs, inner => s.settle xs (p.settle (s.meaning xs) inner)

@[simp] lemma Stage.meaning_nil {α β : Type} (s : Stage α β) : s.meaning [] = [] := by
  cases s <;> simp [meaning]

@[simp] lemma Pipeline.meaning_nil {α β : Type} (p : Pipeline α β) : p.meaning [] = [] := by
  induction p with
  | nil => rfl
  | cons s p ih => rw [meaning, s.meaning_nil, ih]

lemma Stage.build_settle {α β : Type} (s : Stage α β) (inner : Object ω β) :
    s.build inner = s.settle [] inner := by
  cases s <;> simp [build, settle, Vec.reserve_eq_holding]

lemma Pipeline.build_settle {α β : Type} (p : Pipeline α β) (inner : Object ω β) :
    p.build inner = p.settle [] inner := by
  induction p with
  | nil => rfl
  | cons s p ih => rw [build, ih, settle, s.build_settle, s.meaning_nil]

lemma Builder.close_settle {α : Type} (b : Builder α ω) :
    b.close = b.stages.settle [] .action := by
  rw [close, build_stages, Pipeline.build_settle]

lemma Pipeline.append_settle {α β γ : Type} (p : Pipeline α β) (q : Pipeline β γ)
    (xs : List α) (inner : Object ω γ) :
    (p.append q).settle xs inner = p.settle xs (q.settle (p.meaning xs) inner) := by
  induction p with
  | nil => rfl
  | cons s p ih => simp only [append, settle, meaning, ih]

/-- One item keeps a stage settled, and the object that it feeds is called with exactly
what the list function of the stage gains by the item. -/
lemma Stage.call_settle (g : Growth) {α β : Type} (s : Stage α β) (hs : s.Positive)
    (xs : List α) (x : α) (inner : Object ω β) :
    ∃ zs, s.meaning (xs ++ [x]) = s.meaning xs ++ zs ∧
      (s.settle xs inner).call g x =
        (s.settle (xs ++ [x]) (inner.pushAll g zs).1, (inner.pushAll g zs).2) := by
  cases s with
  | where_ predicate =>
    by_cases hx : predicate x
    · exact ⟨[x], by simp [meaning, hx], by simp [settle, Object.call, Object.pushAll, hx]⟩
    · exact ⟨[], by simp [meaning, hx], by simp [settle, Object.call, Object.pushAll, hx]⟩
  | select mapper =>
    exact ⟨[mapper x], by simp [meaning], by simp [settle, Object.call, Object.pushAll]⟩
  | buffer size =>
    have hlt := unfinished_length_lt hs xs
    have hle : (unfinished size xs ++ [x]).length ≤ size := by simpa using hlt
    have hfull := Vec.holding_full hle
    by_cases hlast : (unfinished size xs).length + 1 = size
    · -- the item completes a chunk, which the next stage is called with
      obtain ⟨hc, hu⟩ := segments_concat_eq x hlast
      refine ⟨[unfinished size xs ++ [x]], hc, ?_⟩
      simp [settle, Object.call, Object.pushAll, Vec.holding_pushBack g hlt, hfull, hu,
        Vec.holding_clear hle, hlast]
    · obtain ⟨hc, hu⟩ := segments_concat_lt x (by omega : (unfinished size xs).length + 1 < size)
      have hnot : ¬ size ≤ (unfinished size xs).length + 1 := by omega
      refine ⟨[], by simpa [meaning] using hc, ?_⟩
      simp [settle, Object.call, Object.pushAll, Vec.holding_pushBack g hlt, hfull, hu, hnot]
  | window size =>
    refine ⟨[(xs ++ [x]).rtake size], slidingWindows_concat size xs x, ?_⟩
    simp [settle, Object.call, Object.pushAll, windowAccept_holding g hs]

lemma Stage.pushAll_settle (g : Growth) {α β : Type} (s : Stage α β) (hs : s.Positive)
    (xs ys : List α) (inner : Object ω β) :
    ∃ zs, s.meaning (xs ++ ys) = s.meaning xs ++ zs ∧
      (s.settle xs inner).pushAll g ys =
        (s.settle (xs ++ ys) (inner.pushAll g zs).1, (inner.pushAll g zs).2) := by
  induction ys generalizing xs inner with
  | nil => exact ⟨[], by simp, by simp [Object.pushAll]⟩
  | cons y ys ih =>
    obtain ⟨zs, hz, hcall⟩ := s.call_settle g hs xs y inner
    obtain ⟨zs', hz', hpush⟩ := ih (xs ++ [y]) (inner.pushAll g zs).1
    simp only [List.append_assoc, List.cons_append, List.nil_append] at hz' hpush
    refine ⟨zs ++ zs', by rw [hz', hz, List.append_assoc], ?_⟩
    simp only [Object.pushAll, hcall, hpush, Object.pushAll_append]

theorem Pipeline.pushAll_settle (g : Growth) {α β : Type} (p : Pipeline α β) (hp : p.Positive)
    (xs ys : List α) (inner : Object ω β) :
    ∃ zs, p.meaning (xs ++ ys) = p.meaning xs ++ zs ∧
      (p.settle xs inner).pushAll g ys =
        (p.settle (xs ++ ys) (inner.pushAll g zs).1, (inner.pushAll g zs).2) := by
  induction p with
  | nil => exact ⟨ys, rfl, rfl⟩
  | cons s p ih =>
    obtain ⟨zs, hz, hpush⟩ := s.pushAll_settle g hp.1 xs ys (p.settle (s.meaning xs) inner)
    obtain ⟨zs', hz', hpush'⟩ := ih hp.2 (s.meaning xs) zs inner
    exact ⟨zs', by rw [meaning, hz, hz', meaning], by simp only [settle, hpush, hpush', hz]⟩

lemma Object.action_pushAll (g : Growth) (zs : List ω) :
    (Object.action : Object ω ω).pushAll g zs = (.action, zs) := by
  induction zs with
  | nil => rfl
  | cons z zs ih => simp [pushAll, call, ih]

lemma Pipeline.pushAll_fresh (g : Growth) {α β : Type} (p : Pipeline α β) (hp : p.Positive)
    (ys : List α) (inner : Object ω β) :
    (p.settle [] inner).pushAll g ys =
      (p.settle ys (inner.pushAll g (p.meaning ys)).1, (inner.pushAll g (p.meaning ys)).2) := by
  obtain ⟨zs, hz, hpush⟩ := p.pushAll_settle g hp [] ys inner
  simp only [List.nil_append, p.meaning_nil] at hz hpush
  rw [hpush, hz]

lemma Pipeline.pushAll_closed (g : Growth) {α : Type} (p : Pipeline α ω) (hp : p.Positive)
    (xs : List α) : ((p.settle [] .action).pushAll g xs).2 = p.meaning xs := by
  rw [p.pushAll_fresh g hp, Object.action_pushAll]

/-- A closed pipeline delivers the composition of its stages' list functions, whatever
the bracketing of the builder. -/
theorem close_pushAll_meaning (g : Growth) {α : Type} (b : Builder α ω) (hb : b.Positive)
    (xs : List α) : (b.close.pushAll g xs).2 = b.stages.meaning xs := by
  rw [b.close_settle, b.stages.pushAll_closed g (b.positive_stages.mpr hb)]

/-- The builder of `b` in `main`. -/
def mainBuilder : Builder ℕ (List (List ℕ)) :=
  .composition (.stage (.buffer 2)) (.stage (.window 2))

end CppMisc.Stream
