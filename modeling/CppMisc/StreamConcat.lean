import CppMisc.ClusterPipeline
import CppMisc.StreamThreads

/-! `Concat` of `stream4.cc`: it hands an item to both of its actions, one after the other, and
`reset()` too. A pipeline with such forks is a tree with an action at every leaf; the leaves are
counted from the left, and the path to each of them is a pipeline of its own. `ConcatBuilder` asks
for two actions where `operator>>` passes it one, so a `Concat` here is made by its constructor. -/
namespace CppMisc.Stream
open BatchLedger Timers Runs
open Monitors (servedTo)

section Numbered

variable {ω : Type}

/-- The entries of several logs, one log after the other, under the numbers of their logs. -/
def numbered : ℕ → List (List ω) → List (ℕ × ω)
  | _, [] => []
  | k, log :: logs => log.map (Prod.mk k) ++ numbered (k + 1) logs

lemma numbered_append (k : ℕ) (xs ys : List (List ω)) :
    numbered k (xs ++ ys) = numbered k xs ++ numbered (k + xs.length) ys := by
  induction xs generalizing k with
  | nil => rfl
  | cons x xs ih =>
    rw [List.cons_append, numbered, ih, numbered, List.append_assoc, List.length_cons,
      Nat.add_right_comm, Nat.add_assoc k]

lemma numbered_shift (k n : ℕ) (logs : List (List ω)) :
    (numbered k logs).map (fun p => (p.1 + n, p.2)) = numbered (k + n) logs := by
  induction logs generalizing k with
  | nil => rfl
  | cons log logs ih => simp [numbered, ih, Nat.add_right_comm]

@[simp] lemma numbered_replicate (k n : ℕ) :
    numbered k (List.replicate n ([] : List ω)) = [] := by
  induction n generalizing k with
  | zero => rfl
  | succ n ih => simp [List.replicate_succ, numbered, ih]

lemma servedTo_append {T : Type} [DecidableEq T] (t : T) (xs ys : List (T × ω)) :
    servedTo t (xs ++ ys) = servedTo t xs ++ servedTo t ys := List.filterMap_append

lemma servedTo_mark (j k : ℕ) (log : List ω) :
    servedTo j (log.map (Prod.mk k)) = if k = j then log else [] := by
  by_cases h : k = j <;> simp [servedTo, List.filterMap_map, h]

lemma servedTo_numbered_lt {j k : ℕ} (h : j < k) (logs : List (List ω)) :
    servedTo j (numbered k logs) = [] := by
  induction logs generalizing k with
  | nil => rfl
  | cons log logs ih =>
    rw [numbered, servedTo_append, servedTo_mark, if_neg (by omega), ih (by omega)]
    rfl

lemma servedTo_numbered (k i : ℕ) (logs : List (List ω)) :
    servedTo (k + i) (numbered k logs) = logs.getD i [] := by
  induction logs generalizing k i with
  | nil => rfl
  | cons log logs ih =>
    rw [numbered, servedTo_append, servedTo_mark]
    cases i with
    | zero => simp [servedTo_numbered_lt (Nat.lt_succ_self k)]
    | succ i =>
      rw [if_neg (by omega), ← Nat.add_assoc, Nat.add_right_comm, ih]
      rfl

lemma le_of_mem_numbered {k : ℕ} {logs : List (List ω)} {p : ℕ × ω} (h : p ∈ numbered k logs) :
    k ≤ p.1 := by
  induction logs generalizing k with
  | nil => cases h
  | cons log logs ih =>
    rcases List.mem_append.mp h with h | h
    · obtain ⟨x, -, rfl⟩ := List.mem_map.mp h
      exact le_rfl
    · exact (Nat.le_succ k).trans (ih h)

/-- Where no log has more than one entry, the numbers go up. -/
lemma numbered_increasing (k : ℕ) {logs : List (List ω)} (h : ∀ log ∈ logs, log.length ≤ 1) :
    (numbered k logs).Pairwise fun p q => p.1 < q.1 := by
  induction logs generalizing k with
  | nil => exact List.Pairwise.nil
  | cons log logs ih =>
    rw [List.forall_mem_cons] at h
    rw [numbered, List.pairwise_append]
    refine ⟨?_, ih (k + 1) h.2, ?_⟩
    · rcases log with _ | ⟨x, _ | ⟨y, log⟩⟩
      · exact List.Pairwise.nil
      · exact List.pairwise_singleton _ _
      · simp at h
    · intro p hp q hq
      obtain ⟨x, -, rfl⟩ := List.mem_map.mp hp
      exact le_of_mem_numbered hq

end Numbered

/-- Objects as in `Object`, with `Concat` among them. -/
inductive Fan (ω : Type) : Type → Type 1
  | action : Fan ω ω
  | where_ {α : Type} (inner : Fan ω α) (predicate : α → Bool) : Fan ω α
  | select {α β : Type} (inner : Fan ω β) (mapper : α → β) : Fan ω α
  | buffer {α : Type} (inner : Fan ω (List α)) (items : Vec α) : Fan ω α
  | window {α : Type} (inner : Fan ω (List α)) (items : Vec α) : Fan ω α
  | concat {α : Type} (first other : Fan ω α) : Fan ω α

namespace Fan

variable {ω α : Type} (g : Growth)

/-- The paths from the object to its actions. -/
def paths {α : Type} : Fan ω α → List (Object ω α)
  | .action => [.action]
  | .where_ inner predicate => inner.paths.map (.where_ · predicate)
  | .select inner mapper => inner.paths.map (.select · mapper)
  | .buffer inner items => inner.paths.map (.buffer · items)
  | .window inner items => inner.paths.map (.window · items)
  | .concat first other => first.paths ++ other.paths

/-- `operator()`: the object after the call and what the actions received, each under its
number. -/
def call {α : Type} : Fan ω α → α → Fan ω α × List (ℕ × ω)
  | .action, item => (.action, [(0, item)])
  | .where_ inner predicate, item =>
      if predicate item then
        let r := inner.call item
        (.where_ r.1 predicate, r.2)
      else (.where_ inner predicate, [])
  | .select inner mapper, item =>
      let r := inner.call (mapper item)
      (.select r.1 mapper, r.2)
  | .buffer inner items, item =>
      let items := items.pushBack g item
      if items.full then
        let r := inner.call items.items
        (.buffer r.1 items.clear, r.2)
      else (.buffer inner items, [])
  | .window inner items, item =>
      let items := windowAccept g items item
      let r := inner.call items.items
      (.window r.1 items, r.2)
  | .concat first other, item =>
      let r := first.call item
      let s := other.call item
      (.concat r.1 s.1, r.2 ++ s.2.map fun p => (p.1 + first.paths.length, p.2))

def reset {α : Type} : Fan ω α → Fan ω α
  | .action => .action
  | .where_ inner predicate => .where_ inner predicate
  | .select inner mapper => .select inner mapper
  | .buffer inner items => .buffer inner.reset items.clear
  | .window inner items => .window inner.reset items.clear
  | .concat first other => .concat first.reset other.reset

def apply (f : Fan ω α) : Op α → Fan ω α × List (ℕ × ω)
  | .push item => f.call g item
  | .reset => (f.reset, [])

def applyAll (f : Fan ω α) : List (Op α) → Fan ω α × List (ℕ × ω)
  | [] => (f, [])
  | op :: ops =>
      let r := f.apply g op
      let s := r.1.applyAll ops
      (s.1, r.2 ++ s.2)

/-- A call on a tree is the calls on its paths, from the left. -/
lemma call_paths (f : Fan ω α) (item : α) :
    (f.call g item).1.paths = f.paths.map (fun o => (o.call g item).1) ∧
      (f.call g item).2 = numbered 0 (f.paths.map fun o => (o.call g item).2) := by
  induction f with
  | action => exact ⟨rfl, rfl⟩
  | where_ inner predicate ih =>
    obtain ⟨hpaths, hlog⟩ := ih item
    by_cases hp : predicate item
    · simp [call, paths, hp, hpaths, hlog, Object.call, Function.comp_def]
    · simp [call, paths, hp, Object.call, Function.comp_def]
  | select inner mapper ih =>
    obtain ⟨hpaths, hlog⟩ := ih (mapper item)
    simp [call, paths, hpaths, hlog, Object.call, Function.comp_def]
  | buffer inner items ih =>
    obtain ⟨hpaths, hlog⟩ := ih (items.items ++ [item])
    by_cases hf : (items.pushBack g item).full
    · simp [call, paths, hf, hpaths, hlog, Object.call, Function.comp_def]
    · simp [call, paths, hf, Object.call, Function.comp_def]
  | window inner items ih =>
    obtain ⟨hpaths, hlog⟩ := ih (windowAccept g items item).items
    simp [call, paths, hpaths, hlog, Object.call, Function.comp_def]
  | concat first other ihf iho =>
    obtain ⟨hpaths, hlog⟩ := ihf item
    obtain ⟨hpaths', hlog'⟩ := iho item
    simp [call, paths, hpaths, hpaths', hlog, hlog', numbered_append, numbered_shift]

lemma reset_paths (f : Fan ω α) : f.reset.paths = f.paths.map Object.reset := by
  induction f with
  | action => rfl
  | where_ inner predicate ih => simp [reset, paths, Object.reset, Function.comp_def]
  | select inner mapper ih => simp [reset, paths, Object.reset, Function.comp_def]
  | buffer inner items ih => simp [reset, paths, ih, Object.reset, Function.comp_def]
  | window inner items ih => simp [reset, paths, ih, Object.reset, Function.comp_def]
  | concat first other ihf iho => simp [reset, paths, ihf, iho]

lemma apply_paths (f : Fan ω α) (op : Op α) :
    (f.apply g op).1.paths = f.paths.map (fun o => (o.apply g op).1) ∧
      (f.apply g op).2 = numbered 0 (f.paths.map fun o => (o.apply g op).2) := by
  cases op with
  | push item => exact f.call_paths g item
  | reset => exact ⟨f.reset_paths, by simp [apply, Object.apply]⟩

/-- Every action of a tree receives what it would receive at the end of its own path. -/
lemma applyAll_paths (f : Fan ω α) (ops : List (Op α)) :
    (f.applyAll g ops).1.paths = f.paths.map (fun o => (o.applyAll g ops).1) ∧
      ∀ k, servedTo k (f.applyAll g ops).2 =
        (f.paths.map fun o => (o.applyAll g ops).2).getD k [] := by
  induction ops generalizing f with
  | nil =>
    refine ⟨by simp [applyAll, Object.applyAll], fun k => ?_⟩
    cases h : f.paths[k]? <;> simp [applyAll, Object.applyAll, servedTo, List.getD]
  | cons op ops ih =>
    obtain ⟨hpaths, hlog⟩ := f.apply_paths g op
    obtain ⟨hpaths', hlog'⟩ := ih (f.apply g op).1
    refine ⟨?_, fun k => ?_⟩
    · simp [applyAll, hpaths', hpaths, Object.applyAll, Function.comp_def]
    · have hserved := servedTo_numbered 0 k (f.paths.map fun o => (o.apply g op).2)
      rw [Nat.zero_add] at hserved
      rw [applyAll, servedTo_append, hlog' k, hlog, hpaths, hserved]
      cases h : f.paths[k]? <;> simp [List.getD, Object.applyAll, h]

end Fan

/-- A call comes to the action at most once. -/
lemma Object.call_length_le (g : Growth) {ω α : Type} (o : Object ω α) (item : α) :
    (o.call g item).2.length ≤ 1 := by
  induction o with
  | action => exact le_rfl
  | where_ inner predicate ih =>
    by_cases hp : predicate item
    · simpa [call, hp] using ih item
    · simp [call, hp]
  | select inner mapper ih => exact ih (mapper item)
  | buffer inner items ih =>
    by_cases hf : (items.pushBack g item).full
    · simpa [call, hf] using ih (items.items ++ [item])
    · simp [call, hf]
  | window inner items ih => exact ih (windowAccept g items item).items

/-- What builds a tree: stages, and `Concat` of two trees. -/
inductive Branching (ω : Type) : Type → Type 1
  | action : Branching ω ω
  | stage {α β : Type} (s : Stage α β) (rest : Branching ω β) : Branching ω α
  | concat {α : Type} (first other : Branching ω α) : Branching ω α

namespace Branching

variable {ω α : Type} (g : Growth)

def build {α : Type} : Branching ω α → Fan ω α
  | .action => .action
  | .stage (.where_ predicate) rest => .where_ rest.build predicate
  | .stage (.select mapper) rest => .select rest.build mapper
  | .stage (.buffer size) rest => .buffer rest.build (Vec.empty.reserve size)
  | .stage (.window size) rest => .window rest.build (Vec.empty.reserve size)
  | .concat first other => .concat first.build other.build

/-- The stages on the way to each of the actions. -/
def routes {α : Type} : Branching ω α → List (Pipeline α ω)
  | .action => [.nil]
  | .stage s rest => rest.routes.map (.cons s)
  | .concat first other => first.routes ++ other.routes

lemma build_paths (b : Branching ω α) :
    b.build.paths = b.routes.map fun p => p.build .action := by
  induction b with
  | action => rfl
  | stage s rest ih =>
    cases s <;> simp [build, Fan.paths, routes, ih, Pipeline.build, Stage.build, Function.comp_def]
  | concat first other ihf iho => simp [build, Fan.paths, routes, ihf, iho]

/-- `Concat` fans out faithfully. Whatever is pushed and reset, every action of a tree receives
what it receives at the end of a pipeline of its own, which for pushes is what the list functions
of its route make of them; and a call serves the actions from the left, each at most once. -/
theorem routes_served (b : Branching ω α) :
    (∀ ops k p, b.routes[k]? = some p →
      servedTo k (b.build.applyAll g ops).2 = ((p.build .action).applyAll g ops).2) ∧
    (∀ items k p, b.routes[k]? = some p → p.Positive →
      servedTo k (b.build.applyAll g (items.map .push)).2 = p.meaning items) ∧
    (∀ ops item, ((b.build.applyAll g ops).1.call g item).2.Pairwise fun r r' => r.1 < r'.1) := by
  have hserved : ∀ ops k p, b.routes[k]? = some p →
      servedTo k (b.build.applyAll g ops).2 = ((p.build .action).applyAll g ops).2 := by
    intro ops k p hp
    rw [(b.build.applyAll_paths g ops).2 k, b.build_paths, List.map_map, List.getD,
      List.getElem?_map, hp]
    rfl
  refine ⟨hserved, ?_, ?_⟩
  · intro items k p hp hpos
    rw [hserved _ k p hp, Object.applyAll_push, p.build_settle, p.pushAll_closed g hpos]
  · intro ops item
    rw [(Fan.call_paths g _ item).2]
    refine numbered_increasing 0 fun log hlog => ?_
    obtain ⟨o, -, rfl⟩ := List.mem_map.mp hlog
    exact o.call_length_le g item

/-- Odd numbers go to a `buffer(2)` and to a `window(2)`. -/
def forked : Branching (List ℕ) ℕ :=
  .stage (.where_ fun n => n % 2 == 1)
    (.concat (.stage (.buffer 2) .action) (.stage (.window 2) .action))

theorem routes_served_forked :
    servedTo 0 (forked.build.applyAll doubling ([1, 2, 3, 4, 5].map .push)).2 = [[1, 3]] ∧
      servedTo 1 (forked.build.applyAll doubling ([1, 2, 3, 4, 5].map .push)).2 =
        [[1], [1, 3], [3, 5]] := by
  have h := (routes_served doubling forked).2.1 [1, 2, 3, 4, 5]
  exact ⟨h 0 _ rfl ⟨trivial, Nat.zero_lt_two, trivial⟩,
    h 1 _ rfl ⟨trivial, Nat.zero_lt_two, trivial⟩⟩

end Branching

/-! A cluster in front of a tree. -/

def fanBehind {τ ω : Type} (g : Growth) : Downstream (Fan ω (List τ)) (List τ) (ℕ × ω) :=
  ⟨fun f batch => f.call g batch, Fan.reset⟩

/-- A stage behind a cluster as a part of another: what it receives is picked from what the other
receives. -/
structure Downstream.Part {A A' ι ω ω' : Type*} (d : Downstream A ι ω) (d' : Downstream A' ι ω')
    (part : A → A' → Prop) (pick : List ω → List ω') : Prop where
  call : ∀ a a' item, part a a' →
    part (d.call a item).1 (d'.call a' item).1 ∧
      (d'.call a' item).2 = pick (d.call a item).2
  reset : ∀ a a', part a a' → part (d.reset a) (d'.reset a')
  pick_append : ∀ xs ys, pick (xs ++ ys) = pick xs ++ pick ys

namespace System

variable {A A' : Type*} {τ ω ω' : Type}

/-- The same cluster with another stage behind it, and what that has received. -/
def behind (s : System A τ ω) (action : A') (received : List ω') : System A' τ ω' where
  cluster := ⟨(action, s.cluster.action.2), s.cluster.items, s.cluster.first,
    s.cluster.milliseconds, s.cluster.timer⟩
  queue := s.queue
  pushed := s.pushed
  onceAt := s.onceAt
  discarded := s.discarded
  deliveries := s.deliveries
  received := received

variable {d : Downstream A (List τ) ω} {d' : Downstream A' (List τ) ω'} {part : A → A' → Prop}
  {pick : List ω → List ω'}

lemma behind_push (s : System A τ ω) (action : A') (received : List ω') (value : τ)
    (created : Bool) :
    (s.behind action received).push value created =
      (s.push value created).behind action received := by
  cases hf : s.cluster.first <;> cases created <;>
    simp [push, behind, TimeCluster.call, hf, World.once, World.init]

lemma behind_flush (hpart : d.Part d' part pick) (s : System A τ ω) {action : A'}
    (ha : part s.cluster.action.1 action) (timer : Option ℕ) :
    ∃ action', part (s.flush d timer).cluster.action.1 action' ∧
      (s.behind action (pick s.received)).flush d' timer =
        (s.flush d timer).behind action' (pick (s.flush d timer).received) := by
  cases hitems : s.cluster.items with
  | nil =>
    refine ⟨d'.reset action, ?_, ?_⟩
    · simpa [flush, TimeCluster.flushAndReset, TimeCluster.reset, hitems, Downstream.recorded]
        using hpart.reset _ _ ha
    · simp [flush, behind, TimeCluster.flushAndReset, TimeCluster.reset, hitems,
        Downstream.recorded, handed]
  | cons item items =>
    obtain ⟨hcall, hreceived⟩ := hpart.call _ _ (s.cluster.items.map Entry.value) ha
    refine ⟨d'.reset (d'.call action (s.cluster.items.map Entry.value)).1, ?_, ?_⟩
    · simpa [flush, TimeCluster.flushAndReset, TimeCluster.reset, hitems, Downstream.recorded]
        using hpart.reset _ _ hcall
    · rw [hitems, List.map_cons] at hreceived
      simp [flush, behind, TimeCluster.flushAndReset, TimeCluster.reset, hitems,
        Downstream.recorded, handed, hpart.pick_append, hreceived]

lemma behind_callback (hpart : d.Part d' part pick) (s : System A τ ω) {action : A'}
    (ha : part s.cluster.action.1 action) (id : ℕ) :
    ∃ action', part (s.callback d id).cluster.action.1 action' ∧
      (s.behind action (pick s.received)).callback d' id =
        (s.callback d id).behind action' (pick (s.callback d id).received) := by
  cases hf : s.cluster.timer.action with
  | none =>
    rw [callback_skip d s id hf, callback_skip d' (s.behind action _) id hf]
    exact ⟨action, ha, rfl⟩
  | some f =>
    rw [callback_flush d s id hf, callback_flush d' (s.behind action _) id hf]
    exact behind_flush hpart (s.running id) ha (some id)

lemma behind_step (hpart : d.Part d' part pick) {s t : System A τ ω} {e : Event τ} {action : A'}
    (ha : part s.cluster.action.1 action) (h : s.step d e = some t) :
    ∃ action', part t.cluster.action.1 action' ∧
      (s.behind action (pick s.received)).step d' e =
        some (t.behind action' (pick t.received)) := by
  cases e with
  | push value created =>
    obtain rfl := Option.some.inj h
    have haction := s.push_behind value created
    refine ⟨action, by rw [haction]; exact ha, ?_⟩
    rw [step, behind_push]
    rfl
  | expire id =>
    obtain ⟨queue, hqueue, rfl⟩ := step_expire d h
    have hexpire : (s.behind action (pick s.received)).queue.expire id = some queue := hqueue
    refine ⟨action, ha, ?_⟩
    rw [step, hexpire]
    rfl
  | callback id =>
    obtain ⟨hid, rfl⟩ := step_callback d h
    obtain ⟨action', ha', hcallback⟩ := behind_callback hpart s ha id
    have hpending : id ∈ (s.behind action (pick s.received)).queue.pending := hid
    exact ⟨action', ha', by rw [step, if_pos hpending, hcallback]⟩
  | flushAndReset =>
    obtain rfl := Option.some.inj h
    obtain ⟨action', ha', hflush⟩ := behind_flush hpart s ha none
    exact ⟨action', ha', congrArg some hflush⟩
  | reset =>
    obtain rfl := Option.some.inj h
    exact ⟨d'.reset action, hpart.reset _ _ ha, rfl⟩

/-- A run of a cluster is one with any part of what lies behind it. -/
lemma behind_run (hpart : d.Part d' part pick) {s t : System A τ ω} {es : List (Event τ)}
    {action : A'} (ha : part s.cluster.action.1 action) (h : run (step d) s es = some t) :
    ∃ action', part t.cluster.action.1 action' ∧
      run (step d') (s.behind action (pick s.received)) es =
        some (t.behind action' (pick t.received)) := by
  induction es generalizing s action with
  | nil =>
    obtain rfl := Option.some.inj h
    exact ⟨action, ha, rfl⟩
  | cons e es ih =>
    obtain ⟨u, hu, hrest⟩ := Option.bind_eq_some_iff.mp h
    obtain ⟨action', ha', hstep⟩ := behind_step hpart ha hu
    rw [run_cons, hstep, Option.bind_some]
    exact ih ha' hrest

end System

namespace Branching

variable {τ ω : Type} (g : Growth)

lemma fan_part (k : ℕ) :
    (fanBehind g).Part (pipelineBehind g)
      (fun (f : Fan ω (List τ)) o => f.paths[k]? = some o) (servedTo k) where
  call f o batch h := by
    obtain ⟨hpaths, hlog⟩ := f.call_paths g batch
    have hserved := servedTo_numbered 0 k (f.paths.map fun o => (o.call g batch).2)
    rw [Nat.zero_add, List.getD, List.getElem?_map, h] at hserved
    refine ⟨?_, ?_⟩
    · simp [fanBehind, pipelineBehind, hpaths, h]
    · simp only [fanBehind, pipelineBehind, hlog, hserved]
      rfl
  reset f o h := by simp [fanBehind, pipelineBehind, f.reset_paths, h]
  pick_append := servedTo_append k

/-- A cluster in front of a tree, over any run: its batches, timers and items are those of a
cluster with just one route of the tree behind it, whichever that is, and the action at the end
of the route receives the same; where nobody calls `reset()` and the route forgets at its front
what a `reset()` takes, that is what the list functions of the route make of the batches. -/
theorem cluster_routes_served (b : Branching ω (List τ)) (milliseconds : Int32)
    {es : List (Event τ)} {s : System (Fan ω (List τ)) τ (ℕ × ω)}
    (h : run (System.step (fanBehind g)) (System.new τ b.build milliseconds) es = some s)
    {k : ℕ} {p : Pipeline (List τ) ω} (hp : b.routes[k]? = some p) :
    (∃ o, run (System.step (pipelineBehind g)) (System.new τ (p.build .action) milliseconds) es =
        some (s.behind o (servedTo k s.received))) ∧
      (p.Positive → p.split.front.Forgetful → (∀ e ∈ es, e ≠ Event.reset) →
        servedTo k s.received = p.meaning s.batches) := by
  have hpath : b.build.paths[k]? = some (p.build .action) := by
    rw [b.build_paths, List.getElem?_map, hp]
    rfl
  obtain ⟨o, -, hrun⟩ := System.behind_run (fan_part g k) hpath h
  have hroute : run (System.step (pipelineBehind g))
      (System.new τ (p.build .action) milliseconds) es =
        some (s.behind o (servedTo k s.received)) := hrun
  refine ⟨⟨o, hroute⟩, fun hpos hforget hes => ?_⟩
  have hsep := separate_run g p.split hpos (separate_new p.split milliseconds) hes
    (by rw [Object.moved_eq]; exact hroute)
  exact hsep.delivered_iff.mpr (p.split.apart_of_forgetful hpos hforget _)

/-- The stages that `main` names behind its `time_cluster`. Its `concat` does not compile, as
`operator()` of `ConcatBuilder` takes two actions; here the `Concat` is written out. -/
def mainTree : Branching (List ℕ) (List ℕ) :=
  .stage (.select fun i => (i.insertionSort (· ≤ ·)).destutter (· ≠ ·))
    (.stage (.where_ fun i => !i.isEmpty) (.concat .action .action))

theorem cluster_routes_served_main :
    ∃ s, run (System.step (fanBehind doubling)) (System.new ℕ mainTree.build 500)
        [.push 3 true, .push 1 true, .push 3 true, .expire 1, .callback 1] = some s ∧
      servedTo 1 s.received = [[1, 3]] := by
  obtain ⟨s, hs, hbatches⟩ : ∃ s, run (System.step (fanBehind doubling))
      (System.new ℕ mainTree.build 500)
      [.push 3 true, .push 1 true, .push 3 true, .expire 1, .callback 1] = some s ∧
        s.batches = [[3, 1, 3]] := ⟨_, rfl, rfl⟩
  have h := (cluster_routes_served doubling mainTree 500 hs (k := 1) rfl).2
    ⟨trivial, trivial, trivial⟩ trivial (by decide)
  rw [hbatches] at h
  exact ⟨s, hs, h.trans (by decide)⟩

end Branching

end CppMisc.Stream
