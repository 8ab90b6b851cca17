import Mathlib

/-! `concat`, `endsWith` and `split` of `Util.cc`, for characters of any kind. `split` gives
the fields between the delimiters, but for a last field that is empty. -/
namespace CppMisc.Watch

variable {α : Type*}

/-- The loop of `concat` with its flag `first`. -/
def concatLoop (seperator : List α) : List (List α) → Bool → List α → List α
  | [], _, result => result
  | arg :: args, first, result =>
      if first then concatLoop seperator args false (result ++ arg)
      else concatLoop seperator args false (result ++ seperator ++ arg)

def concat (args : List (List α)) (seperator : List α) : List α :=
  concatLoop seperator args true []

variable [DecidableEq α]

def endsWith (str suffix : List α) : Bool :=
  suffix.length ≤ str.length &&
    (str.drop (str.length - suffix.length)).take suffix.length = suffix

/-- The loop of `split`, to `result` and `current`. -/
def splitLoop (delimiter : α) : List α → List (List α) → List α → List (List α) × List α
  | [], result, current => (result, current)
  | c :: str, result, current =>
      if c = delimiter then splitLoop delimiter str (result ++ [current]) []
      else splitLoop delimiter str result (current ++ [c])

def split (str : List α) (delimiter : α) : List (List α) :=
  let r := splitLoop delimiter str [] []
  if r.2 ≠ [] then r.1 ++ [r.2] else r.1

omit [DecidableEq α]

lemma concatLoop_false (seperator : List α) (args : List (List α)) (result : List α) :
    concatLoop seperator args false result = result ++ args.flatMap (seperator ++ ·) := by
  induction args generalizing result with
  | nil => simp [concatLoop]
  | cons arg args ih => simp [concatLoop, ih]

lemma intercalate_cons (seperator arg : List α) (args : List (List α)) :
    seperator.intercalate (arg :: args) = arg ++ args.flatMap (seperator ++ ·) := by
  induction args generalizing arg with
  | nil => simp
  | cons arg' args ih => rw [List.intercalate_cons_cons, ih]; simp

lemma concat_eq (args : List (List α)) (seperator : List α) :
    concat args seperator = seperator.intercalate args := by
  cases args with
  | nil => rfl
  | cons arg args => simp [concat, concatLoop, concatLoop_false, intercalate_cons]

lemma intercalate_append (seperator : List α) {xs ys : List (List α)} (hxs : xs ≠ [])
    (hys : ys ≠ []) :
    seperator.intercalate (xs ++ ys) =
      seperator.intercalate xs ++ seperator ++ seperator.intercalate ys := by
  obtain ⟨x, xs, rfl⟩ := List.exists_cons_of_ne_nil hxs
  obtain ⟨y, ys, rfl⟩ := List.exists_cons_of_ne_nil hys
  rw [List.cons_append, intercalate_cons, intercalate_cons, intercalate_cons]
  simp

lemma getLast_ne_of_not_mem {delimiter : α} (pre : List α) {field : List α} (hne : field ≠ [])
    (hfield : delimiter ∉ field) : (pre ++ field).getLast? ≠ some delimiter := by
  rw [List.getLast?_append_of_ne_nil _ hne]
  intro hlast
  exact hfield (List.mem_of_getLast? hlast)

variable [DecidableEq α]

lemma endsWith_iff (str suffix : List α) : endsWith str suffix = true ↔ suffix <:+ str := by
  rw [endsWith, Bool.and_eq_true, decide_eq_true_eq, decide_eq_true_eq]
  constructor
  · rintro ⟨hle, heq⟩
    rw [List.take_of_length_le (by rw [List.length_drop]; omega)] at heq
    exact heq ▸ List.drop_suffix _ _
  · intro h
    rw [← List.suffix_iff_eq_drop.mp h]
    exact ⟨h.length_le, List.take_length⟩

lemma splitLoop_fields (delimiter : α) (str : List α) (result : List (List α)) {current : List α}
    (h : delimiter ∉ current) :
    (splitLoop delimiter str result current).1 ++ [(splitLoop delimiter str result current).2] =
      result ++ (current ++ str).splitOn delimiter := by
  induction str generalizing result current with
  | nil =>
    rw [List.append_nil, List.splitOn_eq_singleton h]
    rfl
  | cons c str ih =>
    rw [splitLoop]
    split_ifs with hc
    · subst hc
      rw [ih _ List.not_mem_nil, List.nil_append, List.splitOn_append_cons_self_of_not_mem h,
        List.append_assoc]
      rfl
    · have hcurrent : delimiter ∉ current ++ [c] := by
        rw [List.mem_append, List.mem_singleton]
        rintro (hmem | rfl)
        · exact h hmem
        · exact hc rfl
      rw [ih _ hcurrent, List.append_assoc, List.singleton_append]

/-- The fields of a string are what `split` collects and what it has in hand at the end. -/
lemma split_fields (str : List α) (delimiter : α) :
    (splitLoop delimiter str [] []).1 ++ [(splitLoop delimiter str [] []).2] =
      str.splitOn delimiter :=
  splitLoop_fields delimiter str [] List.not_mem_nil

/-- The last field that the loop has in hand is missing where it is empty. -/
lemma split_eq (str : List α) (delimiter : α) :
    split str delimiter =
      if (str.splitOn delimiter).getLast? = some [] then (str.splitOn delimiter).dropLast
      else str.splitOn delimiter := by
  rw [← split_fields]
  by_cases hlast : (splitLoop delimiter str [] []).2 = []
  · simp [split, hlast]
  · simp [split, hlast]

lemma not_mem_splitLoop (delimiter : α) (str : List α) {result : List (List α)} {current : List α}
    (hresult : ∀ piece ∈ result, delimiter ∉ piece) (hcurrent : delimiter ∉ current) :
    ∀ piece ∈ (splitLoop delimiter str result current).1 ++
      [(splitLoop delimiter str result current).2], delimiter ∉ piece := by
  induction str generalizing result current with
  | nil =>
    rw [splitLoop, List.forall_mem_append]
    exact ⟨hresult, by simpa using hcurrent⟩
  | cons c str ih =>
    rw [splitLoop]
    split_ifs with hc
    · refine ih ?_ List.not_mem_nil
      rw [List.forall_mem_append]
      exact ⟨hresult, by simpa using hcurrent⟩
    · refine ih hresult ?_
      rw [List.mem_append, List.mem_singleton]
      rintro (hmem | rfl)
      · exact hcurrent hmem
      · exact hc rfl

lemma not_mem_split (str : List α) (delimiter : α) :
    ∀ piece ∈ split str delimiter, delimiter ∉ piece := by
  have hfields := not_mem_splitLoop delimiter str (List.forall_mem_nil _) List.not_mem_nil
  rw [split_fields] at hfields
  intro piece hpiece
  rw [split_eq] at hpiece
  split_ifs at hpiece
  · exact hfields piece (List.dropLast_subset _ hpiece)
  · exact hfields piece hpiece

/-- Joined strings without delimiters come apart again, but for an empty last one. -/
lemma split_concat (delimiter : α) {xs : List (List α)} (hxs : ∀ x ∈ xs, delimiter ∉ x) :
    split (concat xs [delimiter]) delimiter =
      if xs.getLast? = some [] then xs.dropLast else xs := by
  rcases eq_or_ne xs [] with rfl | hne
  · rfl
  · rw [split_eq, concat_eq, List.splitOn_intercalate _ hxs hne]

/-- What the pieces leave out is one delimiter at the end. -/
lemma concat_split (str : List α) (delimiter : α) :
    concat (split str delimiter) [delimiter] =
      if str.getLast? = some delimiter then str.dropLast else str := by
  have hjoined : [delimiter].intercalate (str.splitOn delimiter) = str :=
    List.intercalate_splitOn delimiter
  have hmem := not_mem_splitLoop delimiter str (List.forall_mem_nil _) List.not_mem_nil
  rw [concat_eq, split_eq]
  rw [split_fields] at hmem
  obtain ⟨pieces, last, hfields⟩ := (List.eq_nil_or_concat (str.splitOn delimiter)).resolve_left
    (List.splitOn_ne_nil delimiter str)
  rw [List.concat_eq_append] at hfields
  rw [hfields] at hjoined hmem ⊢
  rw [List.getLast?_concat, List.dropLast_concat, ← hjoined]
  rcases eq_or_ne last [] with rfl | hlast
  · rw [if_pos rfl]
    rcases eq_or_ne pieces [] with rfl | hpieces
    · simp
    · simp [intercalate_append [delimiter] hpieces (List.cons_ne_nil _ _)]
  · have hnot : delimiter ∉ last := hmem last (by simp)
    rw [if_neg (by simpa using hlast), if_neg]
    rcases eq_or_ne pieces [] with rfl | hpieces
    · rw [List.nil_append, List.intercalate_singleton]
      exact getLast_ne_of_not_mem [] hlast hnot
    · rw [intercalate_append [delimiter] hpieces (List.cons_ne_nil _ _),
        List.intercalate_singleton]
      exact getLast_ne_of_not_mem _ hlast hnot

/-- `split` and `concat` undo each other up to one delimiter at the end, and no piece has a
delimiter in it. -/
theorem split_concat_inverse (delimiter : α) :
    (∀ str : List α, concat (split str delimiter) [delimiter] =
        if str.getLast? = some delimiter then str.dropLast else str) ∧
      (∀ xs : List (List α), (∀ x ∈ xs, delimiter ∉ x) → (xs = [] ∨ xs.getLast? ≠ some []) →
        split (concat xs [delimiter]) delimiter = xs) ∧
      ∀ str : List α, ∀ piece ∈ split str delimiter, delimiter ∉ piece := by
  refine ⟨fun str => concat_split str delimiter, ?_, fun str => not_mem_split str delimiter⟩
  intro xs hxs hlast
  rw [split_concat delimiter hxs, if_neg]
  rcases hlast with rfl | hlast
  · simp
  · exact hlast

/-- An empty string in the middle is a field like the others. -/
theorem split_concat_inverse_words :
    split (concat [['a'], [], ['b']] [',']) ',' = [['a'], [], ['b']] :=
  (split_concat_inverse ',').2.1 _ (by simp) (.inr (by simp))

end CppMisc.Watch
