import CppMisc.StreamVector

/-! The stages of `stream4.cc`: the builders that `operator>>` composes and the objects
they build. An object is what its type is in the source: a stage around the stage it
feeds, down to the action that ends the pipeline. -/
namespace CppMisc.Stream

/-- Objects that take items of the indexed type and end in an action on `ω`. The field
`inner` is `action` in `Where` and `Select` and `action_` in `Buffer` and `Window`. -/
inductive Object (ω : Type) : Type → Type 1
  | action : Object ω ω
  | where_ {α : Type} (inner : Object ω α) (predicate : α → Bool) : Object ω α
  | select {α β : Type} (inner : Object ω β) (mapper : α → β) : Object ω α
  | buffer {α : Type} (inner : Object ω (List α)) (items : Vec α) : Object ω α
  | window {α : Type} (inner : Object ω (List α)) (items : Vec α) : Object ω α

variable {ω : Type}

/-- The move constructors; those of `Where` and `Select` are the implicit ones. -/
def Object.moved {α : Type} : Object ω α → Object ω α
  | .action => .action
  | .where_ inner predicate => .where_ inner.moved predicate
  | .select inner mapper => .select inner.moved mapper
  | .buffer inner items => .buffer inner.moved items.moved
  | .window inner items => .window inner.moved items.moved

@[simp] lemma Object.moved_eq {α : Type} (o : Object ω α) : o.moved = o := by
  induction o with
  | action => rfl
  | where_ inner predicate ih => rw [moved, ih]
  | select inner mapper ih => rw [moved, ih]
  | buffer inner items ih => rw [moved, ih, Vec.moved_eq]
  | window inner items ih => rw [moved, ih, Vec.moved_eq]

/-- `items_` of a `Window` at the point where `operator()` calls the action. -/
def windowAccept {τ : Type} (g : Growth) (items : Vec τ) (item : τ) : Vec τ :=
  (if items.full then items.eraseBegin else items).pushBack g item

/-- `operator()`: the object after the call and what the final action received in it. -/
def Object.call (g : Growth) {α : Type} : Object ω α → α → Object ω α × List ω
  | .action, item => (.action, [item])
  | .where_ inner predicate, item =>
      if predicate item then
        let r := inner.call g item
        (.where_ r.1 predicate, r.2)
      else (.where_ inner predicate, [])
  | .select inner mapper, item =>
      let r := inner.call g (mapper item)
      (.select r.1 mapper, r.2)
  | .buffer inner items, item =>
      let items := items.pushBack g item
      if items.full then
        let r := inner.call g items.items
        (.buffer r.1 items.clear, r.2)
      else (.buffer inner items, [])
  | .window inner items, item =>
      let items := windowAccept g items item
      let r := inner.call g items.items
      (.window r.1 items, r.2)

/-- `reset()`. Those of `Action`, `Where` and `Select` have an empty body. -/
def Object.reset {α : Type} : Object ω α → Object ω α
  | .action => .action
  | .where_ inner predicate => .where_ inner predicate
  | .select inner mapper => .select inner mapper
  | .buffer inner items => .buffer inner.reset items.clear
  | .window inner items => .window inner.reset items.clear

def Object.pushAll (g : Growth) {α : Type} : Object ω α → List α → Object ω α × List ω
  | o, [] => (o, [])
  | o, item :: items =>
      let r := o.call g item
      let s := r.1.pushAll g items
      (s.1, r.2 ++ s.2)

lemma Object.pushAll_append (g : Growth) {α : Type} (o : Object ω α) (xs ys : List α) :
    o.pushAll g (xs ++ ys) =
      (((o.pushAll g xs).1.pushAll g ys).1,
        (o.pushAll g xs).2 ++ ((o.pushAll g xs).1.pushAll g ys).2) := by
  induction xs generalizing o with
  | nil => simp [pushAll]
  | cons x xs ih => simp [pushAll, ih]

/-- `WhereBuilder`, `SelectBuilder`, `BufferBuilder` and `WindowBuilder`. -/
inductive Stage : Type → Type → Type 1
  | where_ {α : Type} (predicate : α → Bool) : Stage α α
  | select {α β : Type} (mapper : α → β) : Stage α β
  | buffer {α : Type} (size : ℕ) : Stage α (List α)
  | window {α : Type} (size : ℕ) : Stage α (List α)

/-- `operator()(TAction &&action)` of a stage builder: the object that the stage will
feed is moved into it. -/
def Stage.build {α β : Type} : Stage α β → Object ω β → Object ω α
  | .where_ predicate, inner => .where_ inner.moved predicate
  | .select mapper, inner => .select inner.moved mapper
  | .buffer size, inner => .buffer inner.moved (Vec.empty.reserve size)
  | .window size, inner => .window inner.moved (Vec.empty.reserve size)

/-- What `operator>>` builds; `CompositionBuilder` keeps the bracketing. -/
inductive Builder : Type → Type → Type 1
  | stage {α β : Type} (s : Stage α β) : Builder α β
  | composition {α β γ : Type} (first : Builder α β) (second : Builder β γ) : Builder α γ

def Builder.build {α β : Type} : Builder α β → Object ω β → Object ω α
  | .stage s, inner => s.build inner
  | .composition first second, inner => first.build (second.build inner)

/-- `operator>>` with an `Action`. The innermost stage refers to the `Action` that it is given
and does not hold it: `call` reads it as still there. A builder is closed once, since its
`operator()` moves the predicate or mapper out of it. -/
def Builder.close {α : Type} (b : Builder α ω) : Object ω α := b.build .action

end CppMisc.Stream
