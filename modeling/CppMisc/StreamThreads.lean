import CppMisc.MonitorCalls
import CppMisc.StreamMeaning

/-! The stages of `stream4.cc` under any number of threads. `Buffer` and `Window` hold their
`lock_` through `operator()` and `reset()`, the call of `action_` included; `Where`, `Select`
and `Action` have no lock. Places count the stages from the head; the last is the action. -/
namespace CppMisc.Stream
open Monitors Runs

/-- The calls on an object. -/
inductive Op (α : Type)
  | push (item : α)
  | reset
  deriving DecidableEq, Repr

variable {ω : Type}

def Object.apply (g : Growth) {α : Type} (o : Object ω α) : Op α → Object ω α × List ω
  | .push item => o.call g item
  | .reset => (o.reset, [])

def Object.applyAll (g : Growth) {α : Type} : Object ω α → List (Op α) → Object ω α × List ω
  | o, [] => (o, [])
  | o, op :: ops =>
      let r := o.apply g op
      let s := r.1.applyAll g ops
      (s.1, r.2 ++ s.2)

lemma Object.applyAll_push (g : Growth) {β : Type} (o : Object ω β) (items : List β) :
    o.applyAll g (items.map .push) = o.pushAll g items := by
  induction items generalizing o with
  | nil => rfl
  | cons item items ih =>
    simp only [List.map_cons, applyAll, apply, ih, pushAll]

lemma Object.applyAll_append (g : Growth) {α : Type} (o : Object ω α) (ops ops' : List (Op α)) :
    o.applyAll g (ops ++ ops') =
      (((o.applyAll g ops).1.applyAll g ops').1,
        (o.applyAll g ops).2 ++ ((o.applyAll g ops).1.applyAll g ops').2) := by
  induction ops generalizing o with
  | nil => simp [applyAll]
  | cons op ops ih => simp [applyAll, ih]

/-- What the members of a stage hold that calls change. -/
def Stage.Cell {α β : Type} : Stage α β → Type
  | .where_ _ => Unit
  | .select _ => Unit
  | @Stage.buffer α _ => Vec α
  | @Stage.window α _ => Vec α

/-- The stages with a `lock_`. -/
def Stage.guarded {α β : Type} : Stage α β → Bool
  | .where_ _ => false
  | .select _ => false
  | .buffer _ => true
  | .window _ => true

def Stage.fresh {α β : Type} : (s : Stage α β) → s.Cell
  | .where_ _ => ()
  | .select _ => ()
  | .buffer size => Vec.empty.reserve size
  | .window size => Vec.empty.reserve size

/-- `operator()` and `reset()` up to the call of the action. -/
def Stage.accept (g : Growth) {α β : Type} :
    (s : Stage α β) → s.Cell → Op α → s.Cell × Option (Op β)
  | .where_ predicate, c, .push item => (c, if predicate item then some (.push item) else none)
  | .where_ _, c, .reset => (c, none)
  | .select mapper, c, .push item => (c, some (.push (mapper item)))
  | .select _, c, .reset => (c, none)
  | .buffer _, items, .push item =>
      let items := Vec.pushBack g items item
      (items, if items.full then some (.push items.items) else none)
  | .buffer _, items, .reset => (Vec.clear items, some .reset)
  | .window _, items, .push item =>
      let items := windowAccept g items item
      (items, some (.push items.items))
  | .window _, items, .reset => (Vec.clear items, some .reset)

/-- The rest of them. -/
def Stage.finish {α β : Type} : (s : Stage α β) → s.Cell → Op α → s.Cell
  | .where_ _, c, _ => c
  | .select _, c, _ => c
  | .buffer _, items, .push _ => Vec.clear items
  | .buffer _, items, .reset => items
  | .window _, items, _ => items

def Stage.object {α β : Type} (inner : Object ω β) : (s : Stage α β) → s.Cell → Object ω α
  | .where_ predicate, _ => .where_ inner predicate
  | .select mapper, _ => .select inner mapper
  | .buffer _, items => .buffer inner items
  | .window _, items => .window inner items

/-- The items that the object at a place takes. -/
def Pipeline.item {α β : Type} (p : Pipeline α β) (k : ℕ) : Type :=
  match k with
  | 0 => α
  | k + 1 =>
      match p with
      | .nil => Empty
      | .cons _ p => p.item k
termination_by structural k

def Pipeline.Cell {α β : Type} (p : Pipeline α β) (k : ℕ) : Type :=
  match p, k with
  | .nil, 0 => List β
  | .nil, _ + 1 => Unit
  | .cons s _, 0 => s.Cell
  | .cons _ p, k + 1 => p.Cell k

def Pipeline.guarded {α β : Type} (p : Pipeline α β) (k : ℕ) : Bool :=
  match p, k with
  | .nil, _ => false
  | .cons s _, 0 => s.guarded
  | .cons _ p, k + 1 => p.guarded k

def Pipeline.accept (g : Growth) {α β : Type} (p : Pipeline α β) (k : ℕ) (c : p.Cell k)
    (op : Op (p.item k)) : p.Cell k × Option (Σ i, Op (p.item i)) :=
  match p, k, c, op with
  | .nil, 0, received, .push item => (List.append received [item], none)
  | .nil, 0, received, .reset => (received, none)
  | .nil, _ + 1, c, _ => (c, none)
  | .cons s _, 0, c, op => ((s.accept g c op).1, (s.accept g c op).2.map fun op => ⟨1, op⟩)
  | .cons _ p, k + 1, c, op =>
      ((p.accept g k c op).1, (p.accept g k c op).2.map fun f => ⟨f.1 + 1, f.2⟩)

def Pipeline.finish {α β : Type} (p : Pipeline α β) (k : ℕ) (c : p.Cell k)
    (op : Op (p.item k)) : p.Cell k :=
  match p, k, c, op with
  | .nil, _, c, _ => c
  | .cons s _, 0, c, op => s.finish c op
  | .cons _ p, k + 1, c, op => p.finish k c op

/-- The objects of a pipeline as monitors. -/
abbrev Pipeline.net (g : Growth) {α : Type} (p : Pipeline α ω) : Net ℕ where
  Call k := Op (p.item k)
  Cell := p.Cell
  guarded := p.guarded
  accept := p.accept g
  finish := p.finish

def Pipeline.fresh {α β : Type} (p : Pipeline α β) (k : ℕ) : p.Cell k :=
  match p, k with
  | .nil, 0 => []
  | .nil, _ + 1 => ()
  | .cons s _, 0 => s.fresh
  | .cons _ p, k + 1 => p.fresh k

/-- The object whose stages hold these cells, and what its action has received. -/
def Pipeline.object {α β : Type} (p : Pipeline α β) (m : ∀ k, p.Cell k) : Object β α :=
  match p, m with
  | .nil, _ => .action
  | .cons s p, m => s.object (p.object fun k => m (k + 1)) (m 0)

def Pipeline.received {α β : Type} (p : Pipeline α β) (m : ∀ k, p.Cell k) : List β :=
  match p, m with
  | .nil, m => m 0
  | .cons _ p, m => p.received fun k => m (k + 1)

def Pipeline.length {α β : Type} : Pipeline α β → ℕ
  | .nil => 0
  | .cons _ p => p.length + 1

lemma Pipeline.object_fresh {α β : Type} (p : Pipeline α β) :
    p.object p.fresh = p.build .action := by
  induction p with
  | nil => rfl
  | cons s p ih =>
    have htail : (fun k => (cons s p).fresh (k + 1)) = p.fresh := rfl
    rw [object, htail, ih, build]
    cases s <;> simp [Stage.object, Stage.build, fresh, Stage.fresh]

lemma Pipeline.received_fresh {α β : Type} (p : Pipeline α β) : p.received p.fresh = [] := by
  induction p with
  | nil => rfl
  | cons s p ih => exact ih

/-- Every call goes to the next stage, and none comes from the action. -/
lemma Pipeline.accept_next (g : Growth) {α β : Type} (p : Pipeline α β) {k : ℕ} {c : p.Cell k}
    {op : Op (p.item k)} {f : Σ i, Op (p.item i)} (h : (p.accept g k c op).2 = some f) :
    f.1 = k + 1 ∧ k < p.length := by
  induction p generalizing k with
  | nil =>
    cases k with
    | zero => cases op <;> cases h
    | succ k => cases h
  | cons s p ih =>
    cases k with
    | zero =>
      obtain ⟨op', -, rfl⟩ := Option.map_eq_some_iff.mp h
      exact ⟨rfl, Nat.succ_pos _⟩
    | succ k =>
      obtain ⟨f', hf', rfl⟩ := Option.map_eq_some_iff.mp h
      obtain ⟨hnext, hlt⟩ := ih hf'
      exact ⟨congrArg (· + 1) hnext, Nat.succ_lt_succ hlt⟩

def Pipeline.hierarchy (g : Growth) {α : Type} (p : Pipeline α ω) : Hierarchy (p.net g) where
  rank k := min k p.length
  depth := p.length
  rank_le k := min_le_right k p.length
  rank_lt k c op f h := by
    obtain ⟨hnext, hlt⟩ := p.accept_next g h
    rw [hnext]
    omega

lemma Stage.accept_route (g : Growth) {α β : Type} (s : Stage α β) (c c' : s.Cell) (op : Op α)
    (hg : s.guarded = false) :
    (s.accept g c op).2 = (s.accept g c' op).2 ∧ (s.accept g c op).1 = c ∧ s.finish c op = c := by
  cases s with
  | where_ predicate => cases op <;> exact ⟨rfl, rfl, rfl⟩
  | select mapper => cases op <;> exact ⟨rfl, rfl, rfl⟩
  | buffer size => cases hg
  | window size => cases hg

lemma Pipeline.accept_route (g : Growth) {α β : Type} (p : Pipeline α β) (k : ℕ)
    (c c' : p.Cell k) (op : Op (p.item k)) (hg : p.guarded k = false) :
    (p.accept g k c op).2 = (p.accept g k c' op).2 ∧
      ((p.accept g k c op).2 ≠ none → (p.accept g k c op).1 = c) ∧ p.finish k c op = c := by
  induction p generalizing k with
  | nil =>
    cases k with
    | zero => cases op <;> exact ⟨rfl, fun hcall => absurd rfl hcall, rfl⟩
    | succ k => exact ⟨rfl, fun _ => rfl, rfl⟩
  | cons s p ih =>
    cases k with
    | zero =>
      obtain ⟨hroute, hpass, hfinish⟩ := s.accept_route g c c' op hg
      exact ⟨congrArg (Option.map _) hroute, fun _ => hpass, hfinish⟩
    | succ k =>
      obtain ⟨hroute, hpass, hfinish⟩ := ih k c c' op hg
      refine ⟨congrArg (Option.map _) hroute, fun hcall => hpass fun hnone => hcall ?_, hfinish⟩
      exact congrArg (Option.map _) hnone

lemma Pipeline.lockless (g : Growth) {α : Type} (p : Pipeline α ω) : Lockless (p.net g) where
  route k c c' op hg := (p.accept_route g k c c' op hg).1
  pass k c op hg := (p.accept_route g k c c op hg).2.1
  finish k c op hg := (p.accept_route g k c c op hg).2.2

/-- The stages behind the first one. -/
def Pipeline.tail (g : Growth) {α β : Type} (s : Stage α β) (p : Pipeline β ω) :
    Part (p.net g) ((cons s p).net g) where
  place k := k + 1
  injective := add_left_injective 1
  call _ op := op
  cell _ c := c
  accept _ _ _ := rfl
  next _ _ _ := rfl
  finish _ _ _ := rfl

lemma Pipeline.tail_update (g : Growth) {α β : Type} (s : Stage α β) (p : Pipeline β ω)
    (m : Memory ((cons s p).net g)) (c : s.Cell) :
    (tail g s p).cells (Function.update m 0 c) = (tail g s p).cells m :=
  (tail g s p).cells_update_of_ne m Nat.succ_ne_zero c

/-- A call on a stage is its body, with the call of the inner object in between. -/
lemma Stage.apply_object (g : Growth) {α β : Type} (s : Stage α β) (inner : Object ω β)
    (c : s.Cell) (op : Op α) :
    (s.object inner c).apply g op =
      match (s.accept g c op).2 with
      | none => (s.object inner (s.accept g c op).1, [])
      | some op' =>
          (s.object (inner.apply g op').1 (s.finish (s.accept g c op).1 op),
            (inner.apply g op').2) := by
  cases s with
  | where_ predicate =>
    cases op with
    | push item =>
      cases hitem : predicate item <;>
        simp [object, Object.apply, Object.call, accept, hitem]
    | reset => rfl
  | select mapper => cases op <;> rfl
  | buffer size =>
    cases op with
    | push item =>
      cases hfull : (Vec.pushBack g c item).full <;>
        simp [object, Object.apply, Object.call, accept, finish, hfull]
    | reset => rfl
  | window size => cases op <;> rfl

def firstCell {g : Growth} {α β : Type} {s : Stage α β} {p : Pipeline β ω}
    (m : Memory ((Pipeline.cons s p).net g)) : s.Cell := m 0

/-- A call on the head, alone: the first stage answers it by itself, or calls the next one in
between. -/
lemma Pipeline.exec_cons (g : Growth) {α β : Type} {s : Stage α β} {p : Pipeline β ω}
    {m m' : Memory ((cons s p).net g)} {op : Op α}
    (h : Exec (M := (cons s p).net g) m ⟨0, op⟩ m') :
    ((s.accept g (firstCell m) op).2 = none ∧
        firstCell m' = (s.accept g (firstCell m) op).1 ∧
        (tail g s p).cells m' = (tail g s p).cells m) ∨
      ∃ op', (s.accept g (firstCell m) op).2 = some op' ∧
        firstCell m' = s.finish (s.accept g (firstCell m) op).1 op ∧
        Exec (M := p.net g) ((tail g s p).cells m) ⟨0, op'⟩ ((tail g s p).cells m') := by
  cases h with
  | last hnone =>
    exact .inl ⟨Option.map_eq_none_iff.mp hnone, Function.update_self .., tail_update g s p m _⟩
  | @inner _ m₁ _ f hsome hexec =>
    obtain ⟨op', hop, rfl⟩ := Option.map_eq_some_iff.mp hsome
    obtain ⟨htail, hrest⟩ := (tail g s p).exec hexec (f := ⟨0, op'⟩) rfl
    have hfirst : firstCell m₁ = (s.accept g (firstCell m) op).1 :=
      (hrest 0 Nat.succ_ne_zero).trans (Function.update_self ..)
    have hinner : Exec (M := p.net g) ((tail g s p).cells m) ⟨0, op'⟩ ((tail g s p).cells m₁) :=
      tail_update g s p m _ ▸ htail
    refine .inr ⟨op', hop, ?_, (tail_update g s p m₁ (s.finish (m₁ 0) op)).symm ▸ hinner⟩
    rw [← hfirst]
    exact Function.update_self ..

/-- A call on the head, alone, is the call on the object. -/
lemma Pipeline.exec_object (g : Growth) {α β : Type} (p : Pipeline α β)
    {m m' : Memory (p.net g)} {op : Op α} (h : Exec (M := p.net g) m ⟨0, op⟩ m') :
    ∃ out, (p.object m).apply g op = (p.object m', out) ∧
      p.received m' = p.received m ++ out := by
  induction p with
  | nil =>
    cases h with
    | last hnone =>
      cases op with
      | push item => exact ⟨[item], rfl, Function.update_self ..⟩
      | reset => exact ⟨[], rfl, (Function.update_self ..).trans (List.append_nil _).symm⟩
    | inner hsome _ => cases op <;> cases hsome
  | cons s p ih =>
    have hobject : ∀ m : Memory ((cons s p).net g), (cons s p).object m =
        s.object (p.object ((tail g s p).cells m)) (firstCell m) := fun _ => rfl
    rw [hobject, hobject, s.apply_object]
    rcases exec_cons g h with ⟨hnone, hfirst, htail⟩ | ⟨op', hop, hfirst, hinner⟩
    · refine ⟨[], ?_, (congrArg p.received htail).trans (List.append_nil _).symm⟩
      rw [hnone, hfirst, htail]
    · obtain ⟨out, hout, hreceived⟩ := ih hinner
      refine ⟨out, ?_, hreceived⟩
      rw [hop, hfirst]
      dsimp only
      rw [hout]

end CppMisc.Stream
