import CppMisc.StreamMeaning

/-! The `Action` that a pipeline is closed with. Composed builders forward and move what they
build, but `operator>>` with an `Action` calls the builder on its parameter by name, an lvalue, so
the innermost stage is built over `Action &`: it refers to the object that `operator>>` was given
and does not hold it. In `main` that object is a temporary, gone before the first item comes. -/
namespace CppMisc.Stream

variable {ω : Type}

/-- `operator()` while the `Action` is there or when it is gone. A call that comes to an `Action`
that is gone has no defined outcome. -/
def Object.callBy (g : Growth) (alive : Bool) {α : Type} :
    Object ω α → α → Option (Object ω α × List ω)
  | .action, item => if alive then some (.action, [item]) else none
  | .where_ inner predicate, item =>
      if predicate item then
        (inner.callBy g alive item).map fun r => (.where_ r.1 predicate, r.2)
      else some (.where_ inner predicate, [])
  | .select inner mapper, item =>
      (inner.callBy g alive (mapper item)).map fun r => (.select r.1 mapper, r.2)
  | .buffer inner items, item =>
      let items := items.pushBack g item
      if items.full then
        (inner.callBy g alive items.items).map fun r => (.buffer r.1 items.clear, r.2)
      else some (.buffer inner items, [])
  | .window inner items, item =>
      let items := windowAccept g items item
      (inner.callBy g alive items.items).map fun r => (.window r.1 items, r.2)

/-- Items pushed one after the other, the first `lives` of them while the `Action` is there. -/
def Object.pushBy (g : Growth) {α : Type} :
    ℕ → Object ω α → List α → Option (Object ω α × List ω)
  | _, o, [] => some (o, [])
  | lives, o, item :: items =>
      (o.callBy g (decide (0 < lives)) item).bind fun r =>
        (r.1.pushBy g (lives - 1) items).map fun s => (s.1, r.2 ++ s.2)

lemma map_eq_some_iff_of_iff {β γ : Type*} {called : Option β} {value : β} {defined : Prop}
    (f : β → γ) (h : ∀ r, called = some r ↔ value = r ∧ defined) (s : γ) :
    called.map f = some s ↔ f value = s ∧ defined := by
  simp only [Option.map_eq_some_iff, h]
  constructor
  · rintro ⟨_, ⟨rfl, hdefined⟩, rfl⟩
    exact ⟨rfl, hdefined⟩
  · rintro ⟨rfl, hdefined⟩
    exact ⟨value, ⟨rfl, hdefined⟩, rfl⟩

/-- A call is defined if the `Action` is there or is not called. -/
lemma Object.callBy_eq_some (g : Growth) (alive : Bool) {α : Type} (o : Object ω α) (item : α)
    (r : Object ω α × List ω) :
    o.callBy g alive item = some r ↔
      o.call g item = r ∧ (alive = true ∨ (o.call g item).2 = []) := by
  induction o with
  | action => cases alive <;> simp [callBy, call]
  | where_ inner predicate ih =>
    cases hp : predicate item with
    | false => simp [callBy, call, hp]
    | true =>
      simp only [callBy, call, hp, if_true]
      exact map_eq_some_iff_of_iff _ (ih item) r
  | select inner mapper ih => exact map_eq_some_iff_of_iff _ (ih (mapper item)) r
  | buffer inner items ih =>
    cases hfull : (items.pushBack g item).full with
    | false => simp [callBy, call, hfull]
    | true =>
      simp only [callBy, call, hfull, if_true]
      exact map_eq_some_iff_of_iff _ (ih (items.pushBack g item).items) r
  | window inner items ih => exact map_eq_some_iff_of_iff _ (ih (windowAccept g items item).items) r

/-- A run is defined if nothing is handed to the `Action` once it is gone. -/
lemma Object.pushBy_eq_some (g : Growth) {α : Type} (lives : ℕ) (o : Object ω α)
    (items : List α) (r : Object ω α × List ω) :
    o.pushBy g lives items = some r ↔
      o.pushAll g items = r ∧
        (o.pushAll g (items.take lives)).2 = (o.pushAll g items).2 := by
  induction items generalizing lives o r with
  | nil => simp [pushBy, pushAll]
  | cons item items ih =>
    simp only [pushBy, Option.bind_eq_some_iff, callBy_eq_some, Option.map_eq_some_iff, ih]
    cases lives with
    | zero =>
      constructor
      · rintro ⟨_, ⟨rfl, hcall⟩, _, ⟨rfl, hrest⟩, rfl⟩
        have hnone := hcall.resolve_left (by simp)
        simp only [Nat.zero_sub, List.take_zero, pushAll] at hrest
        simp [pushAll, hnone, ← hrest]
      · rintro ⟨rfl, hrest⟩
        simpa [pushAll] using hrest
    | succ lives =>
      constructor
      · rintro ⟨_, ⟨rfl, hcall⟩, _, ⟨rfl, hrest⟩, rfl⟩
        simpa [pushAll] using hrest
      · rintro ⟨rfl, hrest⟩
        simpa [pushAll] using hrest

/-- The `Action` receives what the stages make of the items, in the order in which they are
pushed, exactly if it is there at every push that the stages hand something on for: those made
after it is gone add nothing. -/
theorem closed_delivers_iff (g : Growth) {α : Type} (b : Builder α ω) (hb : b.Positive)
    (lives : ℕ) (xs : List α) :
    (b.close.pushBy g lives xs).map Prod.snd = some (b.stages.meaning xs) ↔
      b.stages.meaning (xs.take lives) = b.stages.meaning xs := by
  simp only [Option.map_eq_some_iff, Object.pushBy_eq_some, close_pushAll_meaning g b hb]
  constructor
  · rintro ⟨r, ⟨-, hgone⟩, -⟩
    exact hgone
  · intro hgone
    exact ⟨_, ⟨rfl, hgone⟩, close_pushAll_meaning g b hb xs⟩

/-- The fifth item, pushed when the `Action` is gone, stays in the buffer. -/
theorem closed_delivers_iff_main :
    (mainBuilder.close.pushBy doubling 4 [1, 2, 3, 4, 5]).map Prod.snd =
      some [[[1, 2]], [[1, 2], [3, 4]]] :=
  (closed_delivers_iff doubling mainBuilder ⟨Nat.zero_lt_two, Nat.zero_lt_two⟩ 4
    [1, 2, 3, 4, 5]).mpr rfl

/-- The pipeline of `main`, which is closed with a temporary: its second item is handed on to an
object that is gone. -/
theorem closed_dangling :
    (mainBuilder.close.pushBy doubling 0 [1, 2]).map Prod.snd ≠
      some (mainBuilder.stages.meaning [1, 2]) := by
  have hnone : mainBuilder.close.pushBy doubling 0 [1, 2] = none := rfl
  simp [hnone]

end CppMisc.Stream
