import CppMisc.Runs

/-! Counting with a map from keys to counters, in no order that means anything, where a counter
that has reached its limit cannot count on. -/
namespace CppMisc.Tallies
open Runs

variable {α : Type*} [DecidableEq α]

/-- Find the key, or put it in with a zero, and count on. -/
def bump (limit : ℕ) : List (α × ℕ) → α → Option (List (α × ℕ))
  | [], x => if 0 < limit then some [(x, 1)] else none
  | (y, n) :: entries, x =>
      if y = x then if n < limit then some ((y, n + 1) :: entries) else none
      else (bump limit entries x).map fun rest => (y, n) :: rest

def tally (limit : ℕ) (xs : List α) : Option (List (α × ℕ)) := run (bump limit) [] xs

/-- What is counted for a key, zero where it is not there. -/
def amount : List (α × ℕ) → α → ℕ
  | [], _ => 0
  | (y, n) :: entries, x => if y = x then n else amount entries x

/-- The counters of a list of keys, one for each. -/
structure Counts (entries : List (α × ℕ)) (xs : List α) : Prop where
  nodup : (entries.map Prod.fst).Nodup
  pos : ∀ e ∈ entries, 0 < e.2
  amount : ∀ x, amount entries x = xs.count x

/-- What counting one more key does, and when it can. -/
lemma bump_spec {limit : ℕ} (entries : List (α × ℕ)) (x : α) :
    ((∃ entries', bump limit entries x = some entries') ↔ amount entries x < limit) ∧
      ∀ entries', bump limit entries x = some entries' →
        (∀ y, amount entries' y = amount entries y + if x = y then 1 else 0) ∧
          ∀ e ∈ entries', e.1 = x ∧ 0 < e.2 ∨ e ∈ entries := by
  induction entries with
  | nil =>
    simp only [bump, amount]
    split_ifs with h
    · refine ⟨iff_of_true ⟨_, rfl⟩ h, ?_⟩
      rintro _ ⟨⟩
      refine ⟨fun y => (Nat.zero_add _).symm, fun e he => ?_⟩
      obtain rfl := List.mem_singleton.mp he
      exact .inl ⟨rfl, Nat.one_pos⟩
    · exact ⟨iff_of_false (by simp) h, by simp⟩
  | cons e entries ih =>
    obtain ⟨z, n⟩ := e
    obtain ⟨hsome, hspec⟩ := ih
    simp only [bump, amount]
    split_ifs with hz hn
    · obtain rfl := hz
      refine ⟨iff_of_true ⟨_, rfl⟩ hn, ?_⟩
      rintro _ ⟨⟩
      refine ⟨fun y => ?_, fun e he => ?_⟩
      · simp only [amount]
        split_ifs <;> rfl
      · rcases List.mem_cons.mp he with rfl | he
        · exact .inl ⟨rfl, Nat.succ_pos n⟩
        · exact .inr (List.mem_cons_of_mem _ he)
    · exact ⟨iff_of_false (by simp) hn, by simp⟩
    · refine ⟨by rw [← hsome]; simp, fun entries' h => ?_⟩
      obtain ⟨rest, hrest, rfl⟩ := Option.map_eq_some_iff.mp h
      obtain ⟨hamount, hmem⟩ := hspec rest hrest
      refine ⟨fun y => ?_, fun e he => ?_⟩
      · simp only [amount]
        split_ifs with hy hx
        · exact absurd (hy.trans hx.symm) hz
        · rfl
        · rw [hamount, if_pos ‹_›]
        · rw [hamount, if_neg ‹_›]
      · rcases List.mem_cons.mp he with rfl | he
        · exact .inr List.mem_cons_self
        · exact (hmem e he).imp_right (List.mem_cons_of_mem _)

/-- A key stays the only one of its kind. -/
lemma bump_nodup {limit : ℕ} {entries entries' : List (α × ℕ)} {x : α}
    (h : bump limit entries x = some entries') (hnodup : (entries.map Prod.fst).Nodup) :
    (entries'.map Prod.fst).Nodup := by
  induction entries generalizing entries' with
  | nil =>
    simp only [bump] at h
    split_ifs at h
    obtain rfl := Option.some.inj h
    exact List.nodup_singleton x
  | cons e entries ih =>
    obtain ⟨z, n⟩ := e
    obtain ⟨hz, hrest⟩ := List.nodup_cons.mp hnodup
    simp only [bump] at h
    split_ifs at h with hx hn
    · obtain rfl := Option.some.inj h
      exact hnodup
    · obtain ⟨rest, hbump, rfl⟩ := Option.map_eq_some_iff.mp h
      refine List.nodup_cons.mpr ⟨fun hin => ?_, ih hbump hrest⟩
      obtain ⟨e, he, heq⟩ := List.mem_map.mp hin
      rcases ((bump_spec entries x).2 rest hbump).2 e he with ⟨hkey, -⟩ | hold
      · exact hx (heq.symm.trans hkey)
      · exact hz (List.mem_map.mpr ⟨e, hold, heq⟩)

lemma Counts.bump {limit : ℕ} {entries entries' : List (α × ℕ)} {xs : List α} {x : α}
    (h : Counts entries xs) (hbump : bump limit entries x = some entries') :
    Counts entries' (xs ++ [x]) := by
  obtain ⟨hamount, hmem⟩ := (bump_spec entries x).2 entries' hbump
  refine ⟨bump_nodup hbump h.nodup, fun e he => ?_, fun y => ?_⟩
  · rcases hmem e he with ⟨-, hpos⟩ | hold
    · exact hpos
    · exact h.pos e hold
  · rw [hamount, h.amount, List.count_append, List.count_singleton]
    simp only [beq_iff_eq]

lemma tally_concat (limit : ℕ) (xs : List α) (x : α) :
    tally limit (xs ++ [x]) = (tally limit xs).bind fun entries => bump limit entries x := by
  rw [tally, run_append, ← tally]
  refine congrArg _ (funext fun entries => ?_)
  rw [run_cons]
  cases bump limit entries x <;> rfl

/-- Counting comes to its end exactly where no key is there too often. -/
lemma tally_spec (limit : ℕ) (xs : List α) :
    ((∃ entries, tally limit xs = some entries) ↔ ∀ x, xs.count x ≤ limit) ∧
      ∀ entries, tally limit xs = some entries → Counts entries xs := by
  induction xs using List.reverseRecOn with
  | nil =>
    refine ⟨iff_of_true ⟨[], rfl⟩ fun x => Nat.zero_le _, ?_⟩
    rintro _ ⟨⟩
    exact ⟨List.nodup_nil, by simp, fun x => rfl⟩
  | append_singleton xs x ih =>
    obtain ⟨hsome, hcounts⟩ := ih
    rw [tally_concat]
    cases ht : tally limit xs with
    | none =>
      have hnone : ¬ ∀ x, xs.count x ≤ limit := by
        rw [← hsome, ht]
        simp
      refine ⟨iff_of_false (by simp) fun hall => hnone fun y => ?_, by simp⟩
      exact ((List.sublist_append_left xs [x]).count_le y).trans (hall y)
    | some entries =>
      have h := hcounts entries ht
      have hle := hsome.mp ⟨entries, ht⟩
      rw [Option.bind_some, (bump_spec entries x).1, h.amount]
      refine ⟨?_, fun entries' hbump => h.bump hbump⟩
      constructor
      · intro hlt y
        rw [List.count_append, List.count_singleton]
        split_ifs with hy
        · rw [beq_iff_eq] at hy
          rw [← hy]
          exact hlt
        · exact hle y
      · intro hall
        have hx := hall x
        rwa [List.count_append, List.count_singleton_self] at hx

lemma amount_of_mem {entries : List (α × ℕ)} (h : (entries.map Prod.fst).Nodup) {x : α} {n : ℕ}
    (hx : (x, n) ∈ entries) : amount entries x = n := by
  induction entries with
  | nil => cases hx
  | cons e entries ih =>
    obtain ⟨z, k⟩ := e
    obtain ⟨hz, hrest⟩ := List.nodup_cons.mp h
    rw [amount]
    rcases List.mem_cons.mp hx with heq | hx
    · obtain ⟨rfl, rfl⟩ := Prod.mk.inj heq
      exact if_pos rfl
    · rw [if_neg, ih hrest hx]
      rintro rfl
      exact hz (List.mem_map.mpr ⟨_, hx, rfl⟩)

lemma mem_of_amount {entries : List (α × ℕ)} {x : α} (h : 0 < amount entries x) :
    (x, amount entries x) ∈ entries := by
  induction entries with
  | nil => cases h
  | cons e entries ih =>
    obtain ⟨z, k⟩ := e
    rw [amount] at h ⊢
    split_ifs at h ⊢ with hz
    · rw [hz]
      exact List.mem_cons_self
    · exact List.mem_cons_of_mem _ (ih h)

lemma Counts.mem_iff {entries : List (α × ℕ)} {xs : List α} (h : Counts entries xs) (x : α)
    (n : ℕ) : (x, n) ∈ entries ↔ n = xs.count x ∧ 0 < n := by
  constructor
  · intro hx
    exact ⟨by rw [← h.amount, amount_of_mem h.nodup hx], h.pos _ hx⟩
  · rintro ⟨rfl, hpos⟩
    rw [← h.amount] at hpos ⊢
    exact mem_of_amount hpos

/-- Counters of lists with the same keys as often are the same, and only these. -/
lemma Counts.perm_iff {entries entries' : List (α × ℕ)} {xs ys : List α} (h : Counts entries xs)
    (h' : Counts entries' ys) : entries.Perm entries' ↔ xs.Perm ys := by
  rw [List.perm_ext_iff_of_nodup (.of_map _ h.nodup) (.of_map _ h'.nodup), List.perm_iff_count]
  constructor
  · intro hmem x
    have hiff := fun n => (h.mem_iff x n).symm.trans ((hmem (x, n)).trans (h'.mem_iff x n))
    rcases Nat.eq_zero_or_pos (xs.count x) with hx | hx
    · rcases Nat.eq_zero_or_pos (ys.count x) with hy | hy
      · rw [hx, hy]
      · exact (((hiff (ys.count x)).mpr ⟨rfl, hy⟩).1).symm
    · exact ((hiff (xs.count x)).mp ⟨rfl, hx⟩).1
  · rintro hcount ⟨x, n⟩
    rw [h.mem_iff, h'.mem_iff, hcount]

/-- All that was counted. -/
lemma Counts.sum {entries : List (α × ℕ)} {xs : List α} (h : Counts entries xs) :
    (entries.map Prod.snd).sum = xs.length := by
  have hperm : entries.Perm (xs.dedup.map fun x => (x, xs.count x)) := by
    rw [List.perm_ext_iff_of_nodup (.of_map _ h.nodup)
      ((List.nodup_dedup xs).map fun _ _ heq => (Prod.mk.inj heq).1)]
    rintro ⟨x, n⟩
    rw [h.mem_iff, List.mem_map]
    constructor
    · rintro ⟨rfl, hpos⟩
      exact ⟨x, List.mem_dedup.mpr (List.count_pos_iff.mp hpos), rfl⟩
    · rintro ⟨y, hy, heq⟩
      obtain ⟨rfl, rfl⟩ := Prod.mk.inj heq
      exact ⟨rfl, List.count_pos_iff.mpr (List.mem_dedup.mp hy)⟩
  rw [(hperm.map Prod.snd).sum_eq, List.map_map]
  exact List.sum_map_count_dedup_eq_length xs

end CppMisc.Tallies
