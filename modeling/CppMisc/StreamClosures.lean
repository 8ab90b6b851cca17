import CppMisc.StreamMeaning

/-! The combinators of `stream.cc`. Each of them wraps an `action` in a closure; a closure
with a counter or a vector of its own is `mutable`. -/
namespace CppMisc.Actions
open ListSegments CppMisc.Stream

/-- What a `std::function<void(T)>` holds: a closure with its captured variables, down to
the sink on `ω`. -/
inductive Action (ω : Type) : Type → Type 1
  | sink : Action ω ω
  | always {ρ α : Type} (a : Action ω α) (t : α) : Action ω ρ
  | buffer {α : Type} (a : Action ω (List α)) (size : ℤ) (buf : List α) : Action ω α
  | filter {α : Type} (a : Action ω α) (p : α → Bool) : Action ω α
  | map {α β : Type} (a : Action ω β) (m : α → β) : Action ω α
  | skip {α : Type} (a : Action ω α) (i : ℤ) : Action ω α
  | take {α : Type} (a : Action ω α) (i : ℤ) : Action ω α

variable {ω : Type}

def buffer {α : Type} (a : Action ω (List α)) (size : ℤ) : Action ω α :=
  if size ≤ 0 then .always a [] else .buffer a size []

def filter {α : Type} (a : Action ω α) (p : α → Bool) : Action ω α := .filter a p

def map {α β : Type} (a : Action ω β) (m : α → β) : Action ω α := .map a m

def skip {α : Type} (a : Action ω α) (i : ℤ) : Action ω α := .skip a (if i ≤ 0 then 0 else i)

/-- The `never` that is made for a count of zero is not used. -/
def take {α : Type} (a : Action ω α) (i : ℤ) : Action ω α := .take a (if i < 0 then 0 else i)

/-- A call: the closure after it and what the sink received in it. -/
def Action.call {α : Type} : Action ω α → α → Action ω α × List ω
  | .sink, t => (.sink, [t])
  | .always a value, _ =>
      let r := a.call value
      (.always r.1 value, r.2)
  | .buffer a size buf, t =>
      let buf := buf ++ [t]
      if size ≤ buf.length then
        let r := a.call buf
        (.buffer r.1 size [], r.2)
      else (.buffer a size buf, [])
  | .filter a p, t =>
      if p t then
        let r := a.call t
        (.filter r.1 p, r.2)
      else (.filter a p, [])
  | .map a m, t =>
      let r := a.call (m t)
      (.map r.1 m, r.2)
  | .skip a i, t =>
      if i > 0 then (.skip a (i - 1), [])
      else
        let r := a.call t
        (.skip r.1 i, r.2)
  | .take a i, t =>
      if i > 0 then
        let r := a.call t
        (.take r.1 (i - 1), r.2)
      else (.take a i, [])

/-- What the sink receives when the items are pushed one after the other. -/
def Action.pushAll {α : Type} : Action ω α → List α → List ω
  | _, [] => []
  | a, t :: ts => (a.call t).2 ++ (a.call t).1.pushAll ts

attribute [local simp] Action.call Action.pushAll

lemma pushAll_sink (ts : List ω) : (Action.sink : Action ω ω).pushAll ts = ts := by
  induction ts with
  | nil => rfl
  | cons t ts ih => simp [ih]

lemma pushAll_filter {α : Type} (a : Action ω α) (p : α → Bool) (ts : List α) :
    (Action.filter a p).pushAll ts = a.pushAll (ts.filter p) := by
  induction ts generalizing a with
  | nil => rfl
  | cons t ts ih =>
    by_cases hp : p t
    · simp [hp, ih]
    · simp [hp, ih]

lemma pushAll_map {α β : Type} (a : Action ω β) (m : α → β) (ts : List α) :
    (Action.map a m).pushAll ts = a.pushAll (ts.map m) := by
  induction ts generalizing a with
  | nil => rfl
  | cons t ts ih => simp [ih]

lemma pushAll_skip {α : Type} (a : Action ω α) (i : ℕ) (ts : List α) :
    (Action.skip a i).pushAll ts = a.pushAll (ts.drop i) := by
  induction ts generalizing a i with
  | nil => simp
  | cons t ts ih =>
    cases i with
    | zero =>
      have hrest := ih (a.call t).1 0
      simp only [Nat.cast_zero, List.drop_zero] at hrest
      simp [hrest]
    | succ i =>
      simp [ih]

lemma pushAll_take {α : Type} (a : Action ω α) (i : ℕ) (ts : List α) :
    (Action.take a i).pushAll ts = a.pushAll (ts.take i) := by
  induction ts generalizing a i with
  | nil => simp
  | cons t ts ih =>
    cases i with
    | zero =>
      have hrest := ih a 0
      simp only [Nat.cast_zero, List.take_zero] at hrest
      simp [hrest]
    | succ i =>
      simp [ih]

lemma pushAll_buffer {α : Type} (a : Action ω (List α)) {n : ℕ} (buf ts : List α)
    (h : buf.length < n) :
    (Action.buffer a n buf).pushAll ts = a.pushAll (fullChunks n (buf ++ ts)) := by
  induction ts generalizing a buf with
  | nil => simp [fullChunks_short h]
  | cons t ts ih =>
    have hsplit : buf ++ t :: ts = buf ++ [t] ++ ts := by simp
    rw [hsplit]
    by_cases hlast : (buf ++ [t]).length = n
    · -- the item completes a chunk
      have hsize : (n : ℤ) ≤ (buf ++ [t]).length := by rw [hlast]
      rw [fullChunks_cons hlast (Nat.zero_lt_of_lt h)]
      simp only [Action.pushAll, Action.call, if_pos hsize]
      rw [ih _ [] (Nat.zero_lt_of_lt h), List.nil_append]
    · have hshort : (buf ++ [t]).length < n := by
        rw [List.length_append, List.length_singleton] at hlast ⊢
        omega
      have hsize : ¬ (n : ℤ) ≤ (buf ++ [t]).length := by omega
      simp only [Action.pushAll, Action.call, if_neg hsize]
      rw [ih _ _ hshort, List.nil_append]

/-- A combinator with its arguments, from the items that it takes to those it hands on. -/
inductive Combinator : Type → Type → Type 1
  | filter {α : Type} (p : α → Bool) : Combinator α α
  | map {α β : Type} (m : α → β) : Combinator α β
  | skip {α : Type} (i : ℤ) : Combinator α α
  | take {α : Type} (i : ℤ) : Combinator α α
  | buffer {α : Type} (size : ℤ) : Combinator α (List α)

def Combinator.build {α β : Type} : Combinator α β → Action ω β → Action ω α
  | .filter p, a => Actions.filter a p
  | .map m, a => Actions.map a m
  | .skip i, a => Actions.skip a i
  | .take i, a => Actions.take a i
  | .buffer size, a => Actions.buffer a size

def Combinator.meaning {α β : Type} : Combinator α β → List α → List β
  | .filter p, ts => ts.filter p
  | .map m, ts => ts.map m
  | .skip i, ts => ts.drop (max i 0).toNat
  | .take i, ts => ts.take (max i 0).toNat
  | .buffer size, ts => fullChunks size.toNat ts

def Combinator.Positive {α β : Type} : Combinator α β → Prop
  | .buffer size => 1 ≤ size
  | _ => True

/-- The stage of `stream4.cc` with the same arguments. -/
def Combinator.stage {α β : Type} : Combinator α β → Option (Stage α β)
  | .filter p => some (.where_ p)
  | .map m => some (.select m)
  | .buffer size => some (.buffer size.toNat)
  | .skip _ => none
  | .take _ => none

/-- Combinators from the outermost inwards. -/
inductive Chain : Type → Type → Type 1
  | nil {α : Type} : Chain α α
  | cons {α β γ : Type} (c : Combinator α β) (rest : Chain β γ) : Chain α γ

def Chain.build {α β : Type} : Chain α β → Action ω β → Action ω α
  | .nil, a => a
  | .cons c rest, a => c.build (rest.build a)

def Chain.meaning {α β : Type} : Chain α β → List α → List β
  | .nil, ts => ts
  | .cons c rest, ts => rest.meaning (c.meaning ts)

def Chain.Positive {α β : Type} : Chain α β → Prop
  | .nil => True
  | .cons c rest => c.Positive ∧ rest.Positive

def Chain.pipeline {α β : Type} : Chain α β → Option (Pipeline α β)
  | .nil => some .nil
  | .cons c rest => do
      let s ← c.stage
      let p ← rest.pipeline
      some (.cons s p)

lemma Combinator.pushAll_build {α β : Type} (c : Combinator α β) (hc : c.Positive)
    (a : Action ω β) (ts : List α) : (c.build a).pushAll ts = a.pushAll (c.meaning ts) := by
  cases c with
  | filter p => exact pushAll_filter a p ts
  | map m => exact pushAll_map a m ts
  | skip i =>
    have hi : (if i ≤ 0 then 0 else i) = ((max i 0).toNat : ℤ) := by
      split_ifs <;> omega
    rw [build, Actions.skip, hi, pushAll_skip, meaning]
  | take i =>
    have hi : (if i < 0 then 0 else i) = ((max i 0).toNat : ℤ) := by
      split_ifs <;> omega
    rw [build, Actions.take, hi, pushAll_take, meaning]
  | buffer size =>
    have hsize : 1 ≤ size := hc
    have hn : size = (size.toNat : ℤ) := by omega
    rw [build, Actions.buffer, if_neg (by omega), meaning]
    conv_lhs => rw [hn]
    rw [pushAll_buffer a [] ts (by rw [List.length_nil]; omega), List.nil_append]

lemma Chain.pushAll_build {α β : Type} (c : Chain α β) (hc : c.Positive) (a : Action ω β)
    (ts : List α) : (c.build a).pushAll ts = a.pushAll (c.meaning ts) := by
  induction c with
  | nil => rfl
  | cons c rest ih => rw [build, c.pushAll_build hc.1, ih hc.2, meaning]

lemma Combinator.stage_meaning {α β : Type} {c : Combinator α β} {s : Stage α β}
    (h : c.stage = some s) (hc : c.Positive) : s.Positive ∧ s.meaning = c.meaning := by
  cases c with
  | filter p =>
    obtain rfl := Option.some.inj h
    exact ⟨trivial, rfl⟩
  | map m =>
    obtain rfl := Option.some.inj h
    exact ⟨trivial, rfl⟩
  | skip i => exact absurd h (by simp [stage])
  | take i => exact absurd h (by simp [stage])
  | buffer size =>
    obtain rfl := Option.some.inj h
    have hsize : 1 ≤ size := hc
    have hpos : 0 < size.toNat := by omega
    exact ⟨hpos, rfl⟩

lemma Chain.pipeline_meaning {α β : Type} {c : Chain α β} {p : Pipeline α β}
    (h : c.pipeline = some p) (hc : c.Positive) : p.Positive ∧ p.meaning = c.meaning := by
  induction c with
  | nil =>
    obtain rfl := Option.some.inj h
    exact ⟨trivial, rfl⟩
  | cons c rest ih =>
    obtain ⟨s, hs, h⟩ := Option.bind_eq_some_iff.mp h
    obtain ⟨q, hq, h⟩ := Option.bind_eq_some_iff.mp h
    obtain rfl := Option.some.inj h
    obtain ⟨hspos, hsmeaning⟩ := Combinator.stage_meaning hs hc.1
    obtain ⟨hqpos, hqmeaning⟩ := ih hq hc.2
    refine ⟨⟨hspos, hqpos⟩, ?_⟩
    funext ts
    rw [Pipeline.meaning, hsmeaning, hqmeaning, meaning]

/-- What a chain delivers. Its sink receives the composition of the list functions of the
combinators, and that is what a pipeline of the same stages delivers, however it was built. -/
theorem chain_pushAll_meaning (g : Growth) {α : Type} (c : Chain α ω) (hc : c.Positive)
    (ts : List α) :
    (c.build .sink).pushAll ts = c.meaning ts ∧
      ∀ b : Builder α ω, c.pipeline = some b.stages →
        (b.close.pushAll g ts).2 = (c.build .sink).pushAll ts := by
  have hmeaning : (c.build .sink).pushAll ts = c.meaning ts := by
    rw [c.pushAll_build hc, pushAll_sink]
  refine ⟨hmeaning, ?_⟩
  intro b hb
  obtain ⟨hpos, heq⟩ := Chain.pipeline_meaning hb hc
  rw [hmeaning, ← heq, b.close_settle, b.stages.pushAll_closed g hpos]

/-- The chain `g` of `main`: chunks of three, of which those of two items at least pass. -/
theorem chain_pushAll_meaning_main :
    let c : Chain ℕ (List ℕ) :=
      .cons (.buffer 3) (.cons (.filter fun i => decide (2 ≤ i.length)) .nil)
    let b : Builder ℕ (List ℕ) :=
      .composition (.stage (.buffer 3)) (.stage (.where_ fun i => decide (2 ≤ i.length)))
    (c.build .sink).pushAll [1, 2, 3, 4, 5] = [[1, 2, 3]] ∧
      (b.close.pushAll doubling [1, 2, 3, 4, 5]).2 = [[1, 2, 3]] := by
  intro c b
  obtain ⟨hchain, hpipeline⟩ :=
    chain_pushAll_meaning doubling c ⟨(by norm_num : (1 : ℤ) ≤ 3), trivial, trivial⟩ [1, 2, 3, 4, 5]
  exact ⟨hchain, (hpipeline b rfl).trans hchain⟩

end CppMisc.Actions
