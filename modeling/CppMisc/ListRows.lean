import Mathlib

/-! A list laid out in rows of a fixed width. All rows but the last are full, and the last
one holds at least one item. -/
namespace CppMisc.ListRows

variable {α : Type*}

inductive Rows (n : ℕ) : List α → List (List α) → Prop
  | nil : Rows n [] []
  | last {row : List α} (hne : row ≠ []) (hle : row.length ≤ n) : Rows n row [row]
  | cons {row xs : List α} {rows : List (List α)} (hrow : row.length = n) (hne : xs ≠ [])
      (hrest : Rows n xs rows) : Rows n (row ++ xs) (row :: rows)

namespace Rows

lemma flatten {n : ℕ} {xs : List α} {rows : List (List α)} (h : Rows n xs rows) :
    rows.flatten = xs := by
  induction h with
  | nil => rfl
  | last hne hle => exact List.flatten_singleton
  | cons hrow hne hrest ih => rw [List.flatten_cons, ih]

lemma ne_nil {n : ℕ} {xs : List α} {rows : List (List α)} (h : Rows n xs rows) (hxs : xs ≠ []) :
    rows ≠ [] := by
  rintro rfl
  exact hxs h.flatten.symm

lemma length_le {n : ℕ} {xs : List α} {rows : List (List α)} (h : Rows n xs rows) :
    ∀ row ∈ rows, row.length ≤ n := by
  induction h with
  | nil => simp
  | last hne hle => simpa using hle
  | cons hrow hne hrest ih => exact List.forall_mem_cons.mpr ⟨hrow.le, ih⟩

lemma full {n : ℕ} {xs : List α} {rows : List (List α)} (h : Rows n xs rows) :
    ∀ row ∈ rows.dropLast, row.length = n := by
  induction h with
  | nil => simp
  | last hne hle => simp
  | cons hrow hne hrest ih =>
    rw [List.dropLast_cons_of_ne_nil (hrest.ne_nil hne)]
    exact List.forall_mem_cons.mpr ⟨hrow, ih⟩

lemma pos {n : ℕ} (hn : 0 < n) {xs : List α} {rows : List (List α)} (h : Rows n xs rows) :
    ∀ row ∈ rows, 1 ≤ row.length := by
  induction h with
  | nil => simp
  | last hne hle => simpa [Nat.one_le_iff_ne_zero] using hne
  | cons hrow hne hrest ih => exact List.forall_mem_cons.mpr ⟨hrow ▸ hn, ih⟩

end Rows

/-- The rows of width `n`. -/
def rowsOf (n : ℕ) (xs : List α) : List (List α) :=
  (List.range (xs.length ⌈/⌉ n)).map fun k => (xs.drop (k * n)).take n

lemma rowsOf_short {n : ℕ} (hn : 0 < n) {xs : List α} (hne : xs ≠ []) (hle : xs.length ≤ n) :
    rowsOf n xs = [xs] := by
  have hpos := List.length_pos_of_ne_nil hne
  have hone : xs.length ⌈/⌉ n = 1 := by
    rw [Nat.ceilDiv_eq_add_pred_div, Nat.div_eq_iff hn]
    omega
  rw [rowsOf, hone, List.range_one, List.map_singleton, Nat.zero_mul, List.drop_zero,
    List.take_of_length_le hle]

lemma rowsOf_append {n : ℕ} (hn : 0 < n) {row : List α} (hrow : row.length = n) (xs : List α) :
    rowsOf n (row ++ xs) = row :: rowsOf n xs := by
  have hlen : (row ++ xs).length ⌈/⌉ n = xs.length ⌈/⌉ n + 1 := by
    have hsum : (row ++ xs).length + n - 1 = xs.length + n - 1 + n := by
      rw [List.length_append, hrow]
      omega
    rw [Nat.ceilDiv_eq_add_pred_div, hsum, Nat.add_div_right _ hn,
      Nat.ceilDiv_eq_add_pred_div]
  rw [rowsOf, hlen, List.range_succ_eq_map, List.map_cons, List.map_map, Nat.zero_mul,
    List.drop_zero, List.take_left' hrow, rowsOf]
  congr 1
  apply List.map_congr_left
  intro k _
  rw [Function.comp_apply, Nat.succ_mul, Nat.add_comm, ← List.drop_drop, List.drop_left' hrow]

/-- Induction over a list row by row. -/
@[elab_as_elim]
lemma row_induction {n : ℕ} (hn : 0 < n) {motive : List α → Prop}
    (short : ∀ xs, xs.length ≤ n → motive xs)
    (long : ∀ xs, n < xs.length → motive (xs.drop n) → motive xs) (xs : List α) : motive xs := by
  induction hlen : xs.length using Nat.strong_induction_on generalizing xs with
  | _ m ih =>
    rcases le_or_gt xs.length n with hle | hgt
    · exact short xs hle
    · have hdrop : (xs.drop n).length < m := by
        rw [List.length_drop]
        omega
      exact long xs hgt (ih _ hdrop (xs.drop n) rfl)

lemma rows_rowsOf {n : ℕ} (hn : 0 < n) (xs : List α) : Rows n xs (rowsOf n xs) := by
  induction xs using row_induction hn with
  | short xs hle =>
    rcases eq_or_ne xs [] with rfl | hne
    · rw [rowsOf, List.length_nil, zero_ceilDiv, List.range_zero, List.map_nil]
      exact .nil
    · rw [rowsOf_short hn hne hle]
      exact .last hne hle
  | long xs hgt ih =>
    have hrow : (xs.take n).length = n := List.length_take_of_le hgt.le
    have hrest : xs.drop n ≠ [] := by
      rw [ne_eq, List.drop_eq_nil_iff]
      omega
    have hcons := Rows.cons hrow hrest ih
    rwa [← rowsOf_append hn hrow, List.take_append_drop] at hcons

end CppMisc.ListRows
