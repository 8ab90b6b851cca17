import Mathlib

/-! Ordered choice between attempts of which some fail: the second attempt counts where the
first one fails. -/
namespace CppMisc.OrderedChoice

variable {ρ : Type*} (fails : ρ → Bool)

def orElse (first second : ρ) : ρ := if fails first then second else first

/-- The first attempt that succeeds, or the last one where all of them fail. -/
def chosen (attempts : List ρ) : Option ρ :=
  (attempts.find? fun x => !fails x).or attempts.getLast?

lemma chosen_singleton (x : ρ) : chosen fails [x] = some x := by
  cases h : fails x with
  | true => simp [chosen, h]
  | false => simp [chosen, h]

variable {fails}

lemma find?_of_succeeds {xs : List ρ} {x : ρ} (h : chosen fails xs = some x)
    (hx : fails x = false) : xs.find? (fun y => !fails y) = some x := by
  cases hfind : xs.find? (fun y => !fails y) with
  | some y =>
    rw [chosen, hfind] at h
    exact h
  | none =>
    rw [chosen, hfind, Option.none_or] at h
    have hfails := List.find?_eq_none.mp hfind x (List.mem_of_getLast? h)
    simp [hx] at hfails

lemma find?_of_fails {xs : List ρ} {x : ρ} (h : chosen fails xs = some x) (hx : fails x = true) :
    xs.find? (fun y => !fails y) = none ∧ xs.getLast? = some x := by
  cases hfind : xs.find? (fun y => !fails y) with
  | some y =>
    rw [chosen, hfind] at h
    obtain rfl := Option.some.inj h
    have hsucceeds := List.find?_some hfind
    simp [hx] at hsucceeds
  | none =>
    rw [chosen, hfind, Option.none_or] at h
    exact ⟨rfl, h⟩

/-- The choice between two choices is that from all of their attempts in order. -/
lemma chosen_append {xs ys : List ρ} {x y : ρ} (hx : chosen fails xs = some x)
    (hy : chosen fails ys = some y) : chosen fails (xs ++ ys) = some (orElse fails x y) := by
  cases hfails : fails x with
  | false =>
    rw [orElse, hfails, chosen, List.find?_append, find?_of_succeeds hx hfails]
    rfl
  | true =>
    obtain ⟨hfind, -⟩ := find?_of_fails hx hfails
    have hne : ys ≠ [] := by
      rintro rfl
      cases hy
    rw [orElse, hfails, if_pos rfl, chosen, List.find?_append, hfind, Option.none_or,
      List.getLast?_append_of_ne_nil xs hne]
    exact hy

lemma fails_chosen {xs : List ρ} {x : ρ} (h : chosen fails xs = some x) :
    fails x = true ↔ ∀ y ∈ xs, fails y = true := by
  constructor
  · intro hx
    obtain ⟨hfind, -⟩ := find?_of_fails h hx
    intro y hy
    simpa using List.find?_eq_none.mp hfind y hy
  · intro hall
    by_contra hx
    have hfind := find?_of_succeeds h (by simpa using hx)
    exact hx (hall x (List.mem_of_find?_eq_some hfind))

end CppMisc.OrderedChoice
