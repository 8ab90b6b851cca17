import CppMisc.StreamMeaning

/-! Pipelines that treat the items of a list apart and those that remember earlier ones.
Where nothing is filtered out and no two items are confused, a stage that remembers
shows in what the action receives. -/
namespace CppMisc.Stream
open ListSegments

/-- A stage that can hold items between two calls which what it hands on later shows. -/
def Stage.remembers {α β : Type} : Stage α β → Bool
  | .where_ _ => false
  | .select _ => false
  | .buffer size => 2 ≤ size
  | .window size => 2 ≤ size

def Pipeline.Forgetful {α β : Type} : Pipeline α β → Prop
  | .nil => True
  | .cons s p => s.remembers = false ∧ p.Forgetful

lemma Stage.meaning_append {α β : Type} (s : Stage α β) (hs : s.Positive)
    (hr : s.remembers = false) (xs ys : List α) :
    s.meaning (xs ++ ys) = s.meaning xs ++ s.meaning ys := by
  cases s with
  | where_ predicate => simp [meaning]
  | select mapper => simp [meaning]
  | buffer size =>
    obtain rfl : size = 1 := by simp [remembers, Positive] at hr hs; omega
    simp [meaning, fullChunks_one]
  | window size =>
    obtain rfl : size = 1 := by simp [remembers, Positive] at hr hs; omega
    simp [meaning, slidingWindows_one]

lemma Pipeline.Forgetful.meaning_append {α β : Type} {p : Pipeline α β} (hr : p.Forgetful)
    (hp : p.Positive) (xs ys : List α) :
    p.meaning (xs ++ ys) = p.meaning xs ++ p.meaning ys := by
  induction p with
  | nil => rfl
  | cons s p ih => simp only [meaning, s.meaning_append hp.1 hr.1, ih hr.2 hp.2]

/-- Predicates that accept everything and mappers that confuse nothing, so that what the
stateful stages do reaches the action. -/
def Stage.Lossless {α β : Type} : Stage α β → Prop
  | .where_ predicate => ∀ x, predicate x = true
  | .select mapper => Function.Injective mapper
  | .buffer _ => True
  | .window _ => True

def Pipeline.Lossless {α β : Type} : Pipeline α β → Prop
  | .nil => True
  | .cons s p => s.Lossless ∧ p.Lossless

lemma Pipeline.append_lossless {α β γ : Type} (p : Pipeline α β) (q : Pipeline β γ) :
    (p.append q).Lossless ↔ p.Lossless ∧ q.Lossless := by
  induction p with
  | nil => simp [append, Lossless]
  | cons s p ih => simp only [append, Lossless, ih, and_assoc]

/-- How many items a stage takes for one that it hands on. -/
def Stage.width {α β : Type} : Stage α β → ℕ
  | .where_ _ => 1
  | .select _ => 1
  | .buffer size => size
  | .window _ => 1

def Pipeline.width {α β : Type} : Pipeline α β → ℕ
  | .nil => 1
  | .cons s p => s.width * p.width

lemma Stage.Positive.width_pos {α β : Type} {s : Stage α β} (hs : s.Positive) : 0 < s.width := by
  cases s with
  | buffer size => exact hs
  | _ => exact Nat.one_pos

lemma Pipeline.Positive.width_pos {α β : Type} {p : Pipeline α β} (hp : p.Positive) :
    0 < p.width := by
  induction p with
  | nil => exact Nat.one_pos
  | cons s p ih => exact Nat.mul_pos hp.1.width_pos (ih hp.2)

lemma Stage.Lossless.meaning_length {α β : Type} {s : Stage α β} (hl : s.Lossless)
    (xs : List α) : (s.meaning xs).length = xs.length / s.width := by
  cases s with
  | where_ predicate =>
    have hall : xs.filter predicate = xs := List.filter_eq_self.mpr fun x _ => hl x
    simp [meaning, width, hall]
  | select mapper => simp [meaning, width]
  | buffer size => simp [meaning, width]
  | window size => simp [meaning, width]

lemma Pipeline.Lossless.meaning_length {α β : Type} {p : Pipeline α β} (hl : p.Lossless)
    (xs : List α) : (p.meaning xs).length = xs.length / p.width := by
  induction p with
  | nil => simp [meaning, width]
  | cons s p ih =>
    rw [meaning, ih hl.2, hl.1.meaning_length, width, Nat.div_div_eq_div_mul]

/-- Where a lossless stage takes items one by one, two items come out as two, and what
the second becomes tells it apart from other items. Only a stage that remembers makes
something else of an item when another one went before. -/
lemma Stage.Lossless.pair {α β : Type} {s : Stage α β} (hl : s.Lossless) (hs : s.Positive)
    (hw : s.width = 1) (a b c : α) :
    ∃ d₀ d d', s.meaning [a, b] = [d₀, d] ∧ s.meaning [a] = [d₀] ∧ s.meaning [c] = [d'] ∧
      (b ≠ c ∨ s.remembers = true → d ≠ d') ∧ (b = c → s.remembers = false → d = d') := by
  cases s with
  | where_ predicate => exact ⟨a, b, c, by simp [meaning, hl _, remembers]⟩
  | select mapper =>
    exact ⟨mapper a, mapper b, mapper c, by simp [meaning, remembers, hl.eq_iff]⟩
  | buffer size =>
    obtain rfl : size = 1 := hw
    exact ⟨[a], [b], [c], by simp [meaning, remembers, fullChunks_one]⟩
  | window size =>
    rcases Nat.lt_or_ge size 2 with h | h
    · obtain rfl : size = 1 := by simp only [Positive] at hs; omega
      exact ⟨[a], [b], [c], by simp [meaning, remembers, slidingWindows_one]⟩
    · have hr : [a, b].rtake size = [a, b] := by simp [List.rtake, Nat.sub_eq_zero_of_le h]
      have hr1 : ∀ x : α, [x].rtake size = [x] := fun x => by
        simp [List.rtake, Nat.sub_eq_zero_of_le (by omega : 1 ≤ size)]
      refine ⟨[a], [a, b], [c], ?_⟩
      simp [meaning, slidingWindows, hr, hr1, remembers, h]

lemma Pipeline.Lossless.pair_ne {α β : Type} {p : Pipeline α β} (hl : p.Lossless)
    (hp : p.Positive) (hw : p.width = 1) {a b c : α} (hbc : b ≠ c) :
    p.meaning [a, b] ≠ p.meaning [a] ++ p.meaning [c] := by
  induction p with
  | nil => simpa [meaning] using hbc
  | cons s p ih =>
    obtain ⟨hws, hwp⟩ := mul_eq_one.mp hw
    obtain ⟨d₀, d, d', hab, ha, hc, hne, -⟩ := hl.1.pair hp.1 hws a b c
    simpa only [meaning, hab, ha, hc] using ih hl.2 hp.2 hwp (hne (.inl hbc))

lemma Pipeline.Lossless.pair_remembered {α β : Type} {p : Pipeline α β} (hl : p.Lossless)
    (hp : p.Positive) (hw : p.width = 1) (hr : ¬ p.Forgetful) (a b : α) :
    p.meaning [a, b] ≠ p.meaning [a] ++ p.meaning [b] := by
  induction p with
  | nil => exact absurd trivial hr
  | cons s p ih =>
    obtain ⟨hws, hwp⟩ := mul_eq_one.mp hw
    obtain ⟨d₀, d, d', hab, ha, hb, hne, heq⟩ := hl.1.pair hp.1 hws a b b
    simp only [meaning, hab, ha, hb]
    cases hs : s.remembers with
    | true => exact hl.2.pair_ne hp.2 hwp (hne (.inr hs))
    | false =>
      obtain rfl := heq rfl hs
      exact ih hl.2 hp.2 hwp (fun hf => hr ⟨hs, hf⟩) d₀ d

lemma Pipeline.Lossless.arrive {α β : Type} {p : Pipeline α β} (hl : p.Lossless)
    (hp : p.Positive) (a : α) (m : ℕ) :
    (p.meaning (List.replicate (m * p.width) a)).length = m := by
  rw [hl.meaning_length, List.length_replicate, Nat.mul_div_cancel _ hp.width_pos]

lemma Pipeline.Lossless.exists_append_ne {α β γ : Type} {p : Pipeline α β} {q : Pipeline β γ}
    (hlp : p.Lossless) (hp : p.Positive) (hlq : q.Lossless) (hq : q.Positive)
    (hr : ¬ q.Forgetful) (a : α) :
    ∃ xs ys, q.meaning (p.meaning xs ++ p.meaning ys) ≠
      q.meaning (p.meaning xs) ++ q.meaning (p.meaning ys) := by
  rcases Nat.lt_or_ge q.width 2 with hw | hw
  · have hw1 : q.width = 1 := by have := hq.width_pos; omega
    obtain ⟨b, hb⟩ := List.length_eq_one_iff.mp (hlp.arrive hp a 1)
    refine ⟨List.replicate (1 * p.width) a, List.replicate (1 * p.width) a, ?_⟩
    rw [hb]
    exact hlq.pair_remembered hq hw1 hr b b
  · -- one item before and the rest of a full batch afterwards
    refine ⟨List.replicate (1 * p.width) a, List.replicate ((q.width - 1) * p.width) a, ?_⟩
    intro h
    have hlen := congrArg List.length h
    simp only [List.length_append, hlq.meaning_length, hlp.arrive hp] at hlen
    rw [Nat.add_sub_cancel' (by omega), Nat.div_self (by omega), Nat.div_eq_of_lt (by omega),
      Nat.div_eq_of_lt (by omega)] at hlen
    omega

lemma Stage.Lossless.meaning_inj {α β : Type} {s : Stage α β} (hl : s.Lossless)
    (hs : s.Positive) {xs ys : List α} (hx : s.width ∣ xs.length) (hy : s.width ∣ ys.length)
    (h : s.meaning xs = s.meaning ys) : xs = ys := by
  cases s with
  | where_ predicate =>
    have hall : ∀ zs : List α, zs.filter predicate = zs := fun zs =>
      List.filter_eq_self.mpr fun z _ => hl z
    simpa only [meaning, hall] using h
  | select mapper => exact List.map_injective_iff.mpr hl h
  | buffer size => exact fullChunks_inj hs hx hy h
  | window size => exact slidingWindows_inj hs h

lemma Pipeline.Lossless.meaning_inj {α β : Type} {p : Pipeline α β} (hl : p.Lossless)
    (hp : p.Positive) {xs ys : List α} (hx : p.width ∣ xs.length) (hy : p.width ∣ ys.length)
    (h : p.meaning xs = p.meaning ys) : xs = ys := by
  induction p with
  | nil => exact h
  | cons s p ih =>
    refine hl.1.meaning_inj hp.1 ((Nat.dvd_mul_right _ _).trans hx)
      ((Nat.dvd_mul_right _ _).trans hy) (ih hl.2 hp.2 ?_ ?_ h)
    · rw [hl.1.meaning_length]
      exact Nat.dvd_div_of_mul_dvd hx
    · rw [hl.1.meaning_length]
      exact Nat.dvd_div_of_mul_dvd hy

end CppMisc.Stream
