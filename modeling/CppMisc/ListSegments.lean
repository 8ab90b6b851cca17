import Mathlib

/-! Consecutive full chunks and trailing windows of a list: what a batching and a
sliding consumer hand on after having seen a list, and what each of them still holds. -/
namespace CppMisc.ListSegments

variable {α : Type*}

/-- The consecutive chunks of exactly `n` items; an incomplete last chunk is withheld. -/
def fullChunks (n : ℕ) (xs : List α) : List (List α) :=
  (List.range (xs.length / n)).map fun k => (xs.drop (k * n)).take n

def unfinished (n : ℕ) (xs : List α) : List α := xs.drop (xs.length / n * n)

/-- For each item, in order, the last `n` of the items up to and including it. -/
def slidingWindows (n : ℕ) (xs : List α) : List (List α) :=
  xs.inits.tail.map fun ys => ys.rtake n

@[simp] lemma fullChunks_nil (n : ℕ) : fullChunks n ([] : List α) = [] := by
  simp [fullChunks]

@[simp] lemma unfinished_nil (n : ℕ) : unfinished n ([] : List α) = [] := by
  simp [unfinished]

@[simp] lemma slidingWindows_nil (n : ℕ) : slidingWindows n ([] : List α) = [] := rfl

@[simp] lemma fullChunks_length (n : ℕ) (xs : List α) :
    (fullChunks n xs).length = xs.length / n := by
  simp [fullChunks]

lemma unfinished_length (n : ℕ) (xs : List α) :
    (unfinished n xs).length = xs.length % n := by
  have hdiv := Nat.div_add_mod' xs.length n
  simp only [unfinished, List.length_drop]
  omega

lemma unfinished_length_lt {n : ℕ} (hn : 0 < n) (xs : List α) :
    (unfinished n xs).length < n := by
  rw [unfinished_length]
  exact Nat.mod_lt _ hn

lemma unfinished_one (xs : List α) : unfinished 1 xs = [] := by
  apply List.eq_nil_of_length_eq_zero
  rw [unfinished_length, Nat.mod_one]

private lemma chunk_append {n k : ℕ} {xs ys : List α} (h : k * n + n ≤ xs.length) :
    ((xs ++ ys).drop (k * n)).take n = (xs.drop (k * n)).take n := by
  rw [List.drop_append_of_le_length (by omega), List.take_append_of_le_length]
  simp only [List.length_drop]
  omega

lemma segments_concat_lt {n : ℕ} {xs : List α} (y : α)
    (h : (unfinished n xs).length + 1 < n) :
    fullChunks n (xs ++ [y]) = fullChunks n xs ∧
      unfinished n (xs ++ [y]) = unfinished n xs ++ [y] := by
  rw [unfinished_length] at h
  have hq : (xs.length + 1) / n = xs.length / n := by
    rw [Nat.div_eq_iff (by omega)]
    have hdiv := Nat.div_add_mod' xs.length n
    omega
  have hle := Nat.div_mul_le_self xs.length n
  constructor
  · simp only [fullChunks, List.length_append, List.length_singleton, hq]
    apply List.map_congr_left
    intro k hk
    have hk' := Nat.mul_le_mul_right n (Nat.succ_le_of_lt (List.mem_range.mp hk))
    exact chunk_append (by rw [Nat.succ_mul] at hk'; omega)
  · simp only [unfinished, List.length_append, List.length_singleton, hq]
    exact List.drop_append_of_le_length hle

lemma segments_concat_eq {n : ℕ} {xs : List α} (y : α)
    (h : (unfinished n xs).length + 1 = n) :
    fullChunks n (xs ++ [y]) = fullChunks n xs ++ [unfinished n xs ++ [y]] ∧
      unfinished n (xs ++ [y]) = [] := by
  have hlen := unfinished_length n xs
  have hdiv := Nat.div_add_mod' xs.length n
  have htot : xs.length + 1 = (xs.length / n + 1) * n := by
    rw [Nat.succ_mul]; omega
  have hq : (xs.length + 1) / n = xs.length / n + 1 := by
    rw [htot]; exact Nat.mul_div_cancel _ (by omega)
  have hle := Nat.div_mul_le_self xs.length n
  constructor
  · simp only [fullChunks, List.length_append, List.length_singleton, hq,
      List.range_succ, List.map_append, List.map_cons, List.map_nil]
    congr 1
    · apply List.map_congr_left
      intro k hk
      have hk' := Nat.mul_le_mul_right n (Nat.succ_le_of_lt (List.mem_range.mp hk))
      exact chunk_append (by rw [Nat.succ_mul] at hk'; omega)
    · rw [List.drop_append_of_le_length hle, List.take_of_length_le]
      · rfl
      · simp only [List.length_append, List.length_drop, List.length_singleton]
        omega
  · apply List.drop_eq_nil_of_le
    simp only [List.length_append, List.length_singleton, hq]
    omega

lemma fullChunks_short {n : ℕ} {xs : List α} (h : xs.length < n) : fullChunks n xs = [] := by
  simp [fullChunks, Nat.div_eq_of_lt h]

lemma fullChunks_cons {n : ℕ} {ys : List α} (hys : ys.length = n) (hn : 0 < n) (xs : List α) :
    fullChunks n (ys ++ xs) = ys :: fullChunks n xs := by
  have hq : (ys ++ xs).length / n = xs.length / n + 1 := by
    rw [List.length_append, hys, Nat.add_comm, Nat.add_div_right _ hn]
  rw [fullChunks, hq, List.range_succ_eq_map, List.map_cons, List.map_map, fullChunks]
  congr 1
  · rw [Nat.zero_mul, List.drop_zero, List.take_left' hys]
  · apply List.map_congr_left
    intro k _
    rw [Function.comp_apply, Nat.succ_mul, Nat.add_comm, ← List.drop_drop, List.drop_left' hys]

lemma fullChunks_flatten {n : ℕ} (hn : 0 < n) (xs : List α) :
    (fullChunks n xs).flatten ++ unfinished n xs = xs := by
  induction xs using List.reverseRecOn with
  | nil => simp
  | append_singleton xs y ih =>
    have hlt := unfinished_length_lt hn xs
    rcases Nat.lt_or_ge ((unfinished n xs).length + 1) n with h | h
    · obtain ⟨hc, hu⟩ := segments_concat_lt y h
      rw [hc, hu, ← List.append_assoc, ih]
    · obtain ⟨hc, hu⟩ := segments_concat_eq y (by omega : (unfinished n xs).length + 1 = n)
      rw [hc, hu, List.flatten_append, List.flatten_singleton, ← List.append_assoc, ih,
        List.append_nil]

lemma slidingWindows_concat (n : ℕ) (xs : List α) (y : α) :
    slidingWindows n (xs ++ [y]) = slidingWindows n xs ++ [(xs ++ [y]).rtake n] := by
  have hne : xs.inits ≠ [] := by simp [← List.length_pos_iff]
  simp [slidingWindows, List.inits_append, List.tail_append_of_ne_nil hne]

@[simp] lemma slidingWindows_length (n : ℕ) (xs : List α) :
    (slidingWindows n xs).length = xs.length := by
  simp [slidingWindows]

lemma rtake_length (n : ℕ) (xs : List α) : (xs.rtake n).length = min n xs.length := by
  simp only [List.rtake, List.length_drop]
  omega

lemma rtake_concat {n : ℕ} (hn : 0 < n) (xs : List α) (y : α) :
    (xs ++ [y]).rtake n =
      (if (xs.rtake n).length ≥ n then (xs.rtake n).tail else xs.rtake n) ++ [y] := by
  obtain ⟨m, rfl⟩ : ∃ m, n = m + 1 := ⟨n - 1, by omega⟩
  rw [List.rtake_concat_succ]
  congr 1
  rw [rtake_length]
  split_ifs with h
  · simp only [List.rtake, List.tail_drop]
    congr 1
    omega
  · have hshort : xs.length ≤ m := by omega
    simp [List.rtake, Nat.sub_eq_zero_of_le hshort, Nat.sub_eq_zero_of_le (hshort.trans m.le_succ)]

lemma fullChunks_one (xs : List α) : fullChunks 1 xs = xs.map fun x => [x] := by
  induction xs using List.reverseRecOn with
  | nil => simp
  | append_singleton xs y ih =>
    rw [(segments_concat_eq y (by simp [unfinished_one])).1, ih, unfinished_one]
    simp

lemma slidingWindows_one (xs : List α) : slidingWindows 1 xs = xs.map fun x => [x] := by
  induction xs using List.reverseRecOn with
  | nil => simp
  | append_singleton xs y ih => simp [slidingWindows_concat, ih, List.rtake_concat_succ]

lemma fullChunks_inj {n : ℕ} (hn : 0 < n) {xs ys : List α} (hx : n ∣ xs.length)
    (hy : n ∣ ys.length) (h : fullChunks n xs = fullChunks n ys) : xs = ys := by
  have hnil : ∀ {zs : List α}, n ∣ zs.length → unfinished n zs = [] := fun hz =>
    List.eq_nil_of_length_eq_zero (by rw [unfinished_length, Nat.mod_eq_zero_of_dvd hz])
  rw [← fullChunks_flatten hn xs, ← fullChunks_flatten hn ys, hnil hx, hnil hy, h]

lemma slidingWindows_getLast {n : ℕ} (hn : 0 < n) (xs : List α) :
    (slidingWindows n xs).map List.getLast? = xs.map some := by
  obtain ⟨m, rfl⟩ : ∃ m, n = m + 1 := ⟨n - 1, by omega⟩
  induction xs using List.reverseRecOn with
  | nil => rfl
  | append_singleton xs y ih => simp [slidingWindows_concat, ih, List.rtake_concat_succ]

/-- Each window ends in its own item, so the windows determine the list. -/
lemma slidingWindows_inj {n : ℕ} (hn : 0 < n) {xs ys : List α}
    (h : slidingWindows n xs = slidingWindows n ys) : xs = ys := by
  have hlast := congrArg (List.map List.getLast?) h
  rw [slidingWindows_getLast hn, slidingWindows_getLast hn] at hlast
  exact List.map_injective_iff.mpr (Option.some_injective α) hlast

end CppMisc.ListSegments
