import CppMisc.ClusterBetween

/-! A `time_cluster` between other stages under any number of threads. Some call the head of the
pipeline; others come in at `flushAndReset()`, as the threads of the timer queue do with every
callback, here at any time at all. The cluster holds its `lock_` through its calls, and with them
through the calls of the stages behind it, which are reached in no other way; so it is a monitor
whose cell is the cluster with all that is behind it. `stop()` does not wait for a callback, and
the system creates all timers that it is asked for, so that no call throws. -/
namespace CppMisc.Stream
open BatchLedger Timers Monitors Runs

inductive ClusterOp (τ : Type)
  | push (item : τ)
  | reset
  | flushAndReset
  deriving DecidableEq

def Op.onCluster {τ : Type} : Op τ → ClusterOp τ
  | .push item => .push item
  | .reset => .reset

/-- The system creates all timers that it is asked for. -/
def System.serve {A : Type*} {τ ω : Type} (d : Downstream A (List τ) ω) (s : System A τ ω) :
    ClusterOp τ → System A τ ω
  | .push item => s.push item true
  | .reset => s.reset d
  | .flushAndReset => s.flush d none

/-- What the cluster is called with by the stage in front of it. -/
def Pipeline.handsOn {α β : Type} (p : Pipeline α β) (k : ℕ) (op : Op (p.item k)) :
    Option (Op β) :=
  match p, k, op with
  | .nil, 0, op => some op
  | .nil, _ + 1, _ => none
  | .cons _ _, 0, _ => none
  | .cons _ p, k + 1, op => p.handsOn k op

def Pipeline.clusterCall {α τ : Type} (p : Pipeline α τ) : Option ℕ → Type
  | some k => Op (p.item k)
  | none => ClusterOp τ

variable {A : Type*} {ω : Type}

def Pipeline.clusterCell (A : Type*) (ω : Type) {α τ : Type} (p : Pipeline α τ) :
    Option ℕ → Type _
  | some k => ULift (p.Cell k)
  | none => System A τ ω

def Pipeline.clusterGuarded {α τ : Type} (p : Pipeline α τ) : Option ℕ → Bool
  | some k => p.guarded k
  | none => true

def Pipeline.frontAccept (g : Growth) {α τ : Type} (p : Pipeline α τ) (k : ℕ) (c : p.Cell k)
    (op : Op (p.item k)) : p.Cell k × Option (Sigma p.clusterCall) :=
  match p.handsOn k op with
  | some op => (c, some ⟨none, op.onCluster⟩)
  | none => ((p.accept g k c op).1, (p.accept g k c op).2.map fun f => ⟨some f.1, f.2⟩)

def Pipeline.clusterAccept (g : Growth) {α τ : Type} (d : Downstream A (List τ) ω)
    (p : Pipeline α τ) : (l : Option ℕ) → p.clusterCell A ω l → p.clusterCall l →
      p.clusterCell A ω l × Option (Sigma p.clusterCall)
  | some k, c, op => (⟨(p.frontAccept g k c.down op).1⟩, (p.frontAccept g k c.down op).2)
  | none, system, op => (System.serve d system op, none)

def Pipeline.clusterFinish {α τ : Type} (p : Pipeline α τ) :
    (l : Option ℕ) → p.clusterCell A ω l → p.clusterCall l → p.clusterCell A ω l
  | some k, c, op => ⟨p.finish k c.down op⟩
  | none, system, _ => system

/-- The stages in front of the cluster, and the cluster. -/
abbrev Pipeline.clusterNet (g : Growth) {α τ : Type} (d : Downstream A (List τ) ω)
    (p : Pipeline α τ) : Net (Option ℕ) where
  Call := p.clusterCall
  Cell := p.clusterCell A ω
  guarded := p.clusterGuarded
  accept := p.clusterAccept g d
  finish := p.clusterFinish

section
variable {α τ : Type} (g : Growth) (d : Downstream A (List τ) ω) (p : Pipeline α τ)

lemma Pipeline.frontAccept_hands {k : ℕ} {op : Op (p.item k)} {op' : Op τ}
    (h : p.handsOn k op = some op') (c : p.Cell k) :
    p.frontAccept g k c op = (c, some ⟨none, op'.onCluster⟩) := by
  simp only [frontAccept, h]

lemma Pipeline.frontAccept_front {k : ℕ} {op : Op (p.item k)} (h : p.handsOn k op = none)
    (c : p.Cell k) :
    p.frontAccept g k c op =
      ((p.accept g k c op).1, (p.accept g k c op).2.map fun f => ⟨some f.1, f.2⟩) := by
  simp only [frontAccept, h]

lemma Pipeline.frontAccept_next {k : ℕ} {c : p.Cell k} {op : Op (p.item k)}
    {f : Sigma p.clusterCall} (h : (p.frontAccept g k c op).2 = some f) :
    f.1 = none ∨ (f.1 = some (k + 1) ∧ k < p.length) := by
  cases hhand : p.handsOn k op with
  | some op' =>
    rw [p.frontAccept_hands g hhand] at h
    obtain rfl := Option.some.inj h
    exact .inl rfl
  | none =>
    rw [p.frontAccept_front g hhand] at h
    obtain ⟨f', hf', rfl⟩ := Option.map_eq_some_iff.mp h
    obtain ⟨hnext, hlt⟩ := p.accept_next g hf'
    exact .inr ⟨congrArg some hnext, hlt⟩

def Pipeline.clusterRank : Option ℕ → ℕ
  | some k => min k p.length
  | none => p.length + 1

def Pipeline.clusterHierarchy : Hierarchy (p.clusterNet g d) where
  rank := p.clusterRank
  depth := p.length + 1
  rank_le l := by
    cases l with
    | some k => exact (min_le_right k p.length).trans (Nat.le_succ _)
    | none => exact le_rfl
  rank_lt l c op f h := by
    cases l with
    | none => cases h
    | some k =>
      rcases p.frontAccept_next g h with hf | ⟨hf, hlt⟩
      · rw [hf]
        exact Nat.lt_succ_of_le (min_le_right k p.length)
      · rw [hf, clusterRank, clusterRank]
        omega

lemma Pipeline.frontAccept_route {k : ℕ} (c c' : p.Cell k) (op : Op (p.item k))
    (hg : p.guarded k = false) :
    (p.frontAccept g k c op).2 = (p.frontAccept g k c' op).2 ∧
      ((p.frontAccept g k c op).2 ≠ none → (p.frontAccept g k c op).1 = c) := by
  cases hhand : p.handsOn k op with
  | some op' =>
    rw [p.frontAccept_hands g hhand, p.frontAccept_hands g hhand]
    exact ⟨rfl, fun _ => rfl⟩
  | none =>
    obtain ⟨hroute, hpass, -⟩ := p.accept_route g k c c' op hg
    rw [p.frontAccept_front g hhand, p.frontAccept_front g hhand]
    refine ⟨congrArg (Option.map _) hroute, fun hcall => hpass fun hnone => hcall ?_⟩
    exact congrArg (Option.map _) hnone

lemma Pipeline.clusterLockless : Lockless (p.clusterNet g d) where
  route l c c' op hg := by
    cases l with
    | none => cases hg
    | some k => exact (p.frontAccept_route g c.down c'.down op hg).1
  pass l c op hg := by
    cases l with
    | none => cases hg
    | some k =>
      have hpass := (p.frontAccept_route g c.down c.down op hg).2
      exact fun hcall => congrArg ULift.up (hpass hcall)
  finish l c op hg := by
    cases l with
    | none => cases hg
    | some k => exact congrArg ULift.up (p.accept_route g k c.down c.down op hg).2.2

def Pipeline.clusterLift {β : Type} (s : Stage β α) :
    (l : Option ℕ) → p.clusterCall l → (cons s p).clusterCall (l.map (· + 1))
  | some _, op => op
  | none, op => op

lemma Pipeline.frontAccept_tail {β : Type} (s : Stage β α) (k : ℕ) (c : p.Cell k)
    (op : Op (p.item k)) :
    (cons s p).frontAccept g (k + 1) c op =
      ((p.frontAccept g k c op).1,
        (p.frontAccept g k c op).2.map fun f => ⟨f.1.map (· + 1), p.clusterLift s f.1 f.2⟩) := by
  have hcons : (cons s p).handsOn (k + 1) op = p.handsOn k op := rfl
  cases hhand : p.handsOn k op with
  | some op' =>
    rw [p.frontAccept_hands g hhand]
    exact (cons s p).frontAccept_hands g (hcons.trans hhand) c
  | none =>
    rw [p.frontAccept_front g hhand, Option.map_map]
    refine ((cons s p).frontAccept_front g (hcons.trans hhand) c).trans ?_
    exact congrArg (Prod.mk _) (Option.map_map ..)

/-- The stages behind the first one, with the cluster. -/
def Pipeline.clusterTail {β : Type} (s : Stage β α) :
    Part (p.clusterNet g d) ((cons s p).clusterNet g d) where
  place l := l.map (· + 1)
  injective := Option.map_injective (add_left_injective 1)
  call := p.clusterLift s
  cell
    | some _, c => c
    | none, system => system
  accept l c op := by
    cases l with
    | some k =>
      have htail := congrArg Prod.fst (p.frontAccept_tail g s k c.down op)
      exact congrArg ULift.up htail.symm
    | none => rfl
  next l c op := by
    cases l with
    | some k => exact congrArg Prod.snd (p.frontAccept_tail g s k c.down op)
    | none => rfl
  finish l c op := by
    cases l with
    | some k => rfl
    | none => rfl

lemma Pipeline.clusterTail_place {β : Type} (s : Stage β α) (l : Option ℕ) :
    (clusterTail g d p s).place l ≠ some 0 := by
  cases l <;> simp [clusterTail]

lemma Pipeline.clusterTail_update {β : Type} (s : Stage β α)
    (m : Memory ((cons s p).clusterNet g d)) (c : ULift s.Cell) :
    (clusterTail g d p s).cells (Function.update m (some 0) c) = (clusterTail g d p s).cells m :=
  (clusterTail g d p s).cells_update_of_ne m (clusterTail_place g d p s) (l := some 0) c

/-- The object in front whose stages hold these cells. -/
def Pipeline.frontObject (m : Memory (p.clusterNet g d)) : Object τ α :=
  p.object fun k => (m (some k)).down

end

/-- What an object calls the cluster with that is behind it. -/
def Object.handed (g : Growth) {α τ : Type} (o : Object τ α) : Op α → List (ClusterOp τ)
  | .push item => (o.call g item).2.map .push
  | .reset => if o.resets then [.reset] else []

lemma Stage.handed_object (g : Growth) {α β τ : Type} (s : Stage α β) (inner : Object τ β)
    (c : s.Cell) (op : Op α) :
    (s.object inner c).handed g op =
      match (s.accept g c op).2 with
      | none => []
      | some op' => inner.handed g op' := by
  cases s with
  | where_ predicate =>
    cases op with
    | push item =>
      cases hitem : predicate item <;>
        simp [object, Object.handed, Object.call, accept, hitem]
    | reset => rfl
  | select mapper => cases op <;> rfl
  | buffer size =>
    cases op with
    | push item =>
      cases hfull : (Vec.pushBack g c item).full <;>
        simp [object, Object.handed, Object.call, accept, hfull]
    | reset => rfl
  | window size => cases op <;> rfl

def clusterFirst {g : Growth} {α β τ : Type} {d : Downstream A (List τ) ω} {s : Stage α β}
    {p : Pipeline β τ} (m : Memory ((Pipeline.cons s p).clusterNet g d)) : s.Cell :=
  (m (some 0)).down

lemma clusterFirst_update {g : Growth} {α β τ : Type} {d : Downstream A (List τ) ω}
    {s : Stage α β} {p : Pipeline β τ} (m : Memory ((Pipeline.cons s p).clusterNet g d))
    (c : ULift s.Cell) : clusterFirst (Function.update m (some 0) c) = c.down :=
  congrArg ULift.down (Function.update_self (some 0) c m)

/-- A call on the head, alone: as without the cluster, the first stage answers it by itself or
calls the next one in between. -/
lemma Pipeline.clusterExec_cons (g : Growth) {α β τ : Type} (d : Downstream A (List τ) ω)
    {s : Stage α β} {p : Pipeline β τ} {m m' : Memory ((cons s p).clusterNet g d)} {op : Op α}
    (h : Exec (M := (cons s p).clusterNet g d) m ⟨some 0, op⟩ m') :
    ((s.accept g (clusterFirst m) op).2 = none ∧
        clusterFirst m' = (s.accept g (clusterFirst m) op).1 ∧
        (clusterTail g d p s).cells m' = (clusterTail g d p s).cells m) ∨
      ∃ op', (s.accept g (clusterFirst m) op).2 = some op' ∧
        clusterFirst m' = s.finish (s.accept g (clusterFirst m) op).1 op ∧
        Exec (M := p.clusterNet g d) ((clusterTail g d p s).cells m) ⟨some 0, op'⟩
          ((clusterTail g d p s).cells m') := by
  cases h with
  | last hnone =>
    exact .inl ⟨Option.map_eq_none_iff.mp (Option.map_eq_none_iff.mp hnone),
      clusterFirst_update m _, clusterTail_update g d p s m _⟩
  | @inner _ m₁ _ f hsome hexec =>
    obtain ⟨f', hf', rfl⟩ := Option.map_eq_some_iff.mp hsome
    obtain ⟨op', hop, rfl⟩ := Option.map_eq_some_iff.mp hf'
    obtain ⟨htail, hrest⟩ := (clusterTail g d p s).exec hexec (f := ⟨some 0, op'⟩) rfl
    have hfirst : clusterFirst m₁ = (s.accept g (clusterFirst m) op).1 :=
      (congrArg ULift.down (hrest (some 0) (clusterTail_place g d p s))).trans
        (clusterFirst_update m _)
    have hinner : Exec (M := p.clusterNet g d) ((clusterTail g d p s).cells m) ⟨some 0, op'⟩
        ((clusterTail g d p s).cells m₁) := clusterTail_update g d p s m _ ▸ htail
    refine .inr ⟨op', hop, ?_,
      (clusterTail_update g d p s m₁ ⟨s.finish (clusterFirst m₁) op⟩).symm ▸ hinner⟩
    rw [← hfirst]
    exact clusterFirst_update m₁ _

/-- A call on the head, alone, is the call on the object in front, and then the cluster serves
what the object hands on. -/
lemma Pipeline.exec_head {α τ : Type} (g : Growth) (d : Downstream A (List τ) ω)
    (p : Pipeline α τ) {m m' : Memory (p.clusterNet g d)} {op : Op α}
    (h : Exec (M := p.clusterNet g d) m ⟨some 0, op⟩ m') :
    p.frontObject g d m' = ((p.frontObject g d m).apply g op).1 ∧
      m' none = ((p.frontObject g d m).handed g op).foldl (System.serve d) (m none) := by
  induction p with
  | nil =>
    cases h with
    | last hnone => cases hnone
    | inner hsome hexec =>
      obtain rfl := Option.some.inj hsome
      cases hexec with
      | last _ =>
        refine ⟨by cases op <;> rfl, ?_⟩
        cases op <;> rfl
      | inner hsome' _ => cases hsome'
  | cons s p ih =>
    have hobject : ∀ m : Memory ((cons s p).clusterNet g d), (cons s p).frontObject g d m =
        s.object (p.frontObject g d ((clusterTail g d p s).cells m)) (clusterFirst m) :=
      fun _ => rfl
    rw [hobject, hobject, s.apply_object, s.handed_object]
    rcases clusterExec_cons g d h with ⟨hnone, hfirst, htail⟩ | ⟨op', hop, hfirst, hinner⟩
    · rw [hnone, hfirst, htail]
      exact ⟨rfl, congrFun htail none⟩
    · obtain ⟨hfront, hserved⟩ := ih d hinner
      rw [hop, hfirst, hfront]
      exact ⟨rfl, hserved⟩

/-- The calls from outside. -/
inductive Entrance (α : Type)
  | head (op : Op α)
  | flushAndReset
  deriving DecidableEq

def Entrance.op {α : Type} : Entrance α → Option (Op α)
  | .head op => some op
  | .flushAndReset => none

variable {α τ : Type} (g : Growth) (d : Downstream A (List τ) ω) (p : Pipeline α τ)

def clusterFrame : Entrance α → Frame (p.clusterNet g d)
  | .head op => ⟨some 0, op⟩
  | .flushAndReset => ⟨none, .flushAndReset⟩

lemma clusterFrame_injective : Function.Injective (clusterFrame g d p) := by
  intro e e' h
  cases e with
  | head op =>
    cases e' with
    | head op' => exact congrArg Entrance.head (eq_of_heq (Sigma.mk.inj_iff.mp h).2)
    | flushAndReset => cases congrArg Sigma.fst h
  | flushAndReset =>
    cases e' with
    | head op' => cases congrArg Sigma.fst h
    | flushAndReset => rfl

namespace Between

/-- One of the calls, alone. -/
def serve (s : Between A α τ ω) : Entrance α → Between A α τ ω
  | .head op => ⟨(s.front.apply g op).1, (s.front.handed g op).foldl (System.serve d) s.system⟩
  | .flushAndReset => { s with system := s.system.flush d none }

def Event.ofOp : Op α → Event α
  | .push item => .push item
  | .reset => .reset

/-- Calls on the head are served as without threads. -/
lemma step_serve (s : Between A α τ ω) (op : Op α) :
    s.step g d (Event.ofOp op) = some (s.serve g d (.head op)) := by
  cases op with
  | push item =>
    simp only [serve, Object.handed, List.foldl_map]
    rfl
  | reset =>
    simp only [serve, Object.handed, Event.ofOp, step]
    cases s.front.resets <;> rfl

lemma serve_matches (s : Between A α τ ω) (e : Entrance α) :
    ∃ fs, Matches g d s (s.serve g d e) ([e].filterMap Entrance.op) fs := by
  cases e with
  | head op =>
    have hop : [Event.ofOp op].filterMap Event.op = [op] := by cases op <;> rfl
    obtain ⟨fs, hfs⟩ := step_matches g d (s.step_serve g d op)
    rw [hop] at hfs
    exact ⟨fs, hfs⟩
  | flushAndReset =>
    obtain ⟨hledger, -⟩ := s.system.flush_spec d none
    refine ⟨[.flushAndReset], rfl, rfl, ?_, fun _ => ⟨congrArg Ledger.discarded hledger, by simp⟩⟩
    have hpushed : (s.system.flush d none).pushed = s.system.pushed :=
      congrArg Ledger.entered hledger
    exact (congrArg (List.map Entry.value) hpushed).trans (List.append_nil _).symm

lemma foldl_matches (s : Between A α τ ω) (es : List (Entrance α)) :
    ∃ fs, Matches g d s (es.foldl (serve g d) s) (es.filterMap Entrance.op) fs := by
  induction es generalizing s with
  | nil => exact ⟨[], Matches.refl g d s⟩
  | cons e es ih =>
    obtain ⟨fs, hfirst⟩ := s.serve_matches g d e
    obtain ⟨fs', hnext⟩ := ih (s.serve g d e)
    have hops : (e :: es).filterMap Entrance.op =
        [e].filterMap Entrance.op ++ es.filterMap Entrance.op := by
      rw [← List.filterMap_append, List.singleton_append]
    exact ⟨fs ++ fs', hops ▸ hfirst.trans hnext⟩

end Between

def Pipeline.between (m : Memory (p.clusterNet g d)) : Between A α τ ω :=
  ⟨p.frontObject g d m, m none⟩

lemma Pipeline.exec_between {m m' : Memory (p.clusterNet g d)} {e : Entrance α}
    (h : Exec m (clusterFrame g d p e) m') :
    p.between g d m' = (p.between g d m).serve g d e := by
  cases e with
  | head op =>
    obtain ⟨hfront, hserved⟩ := p.exec_head g d h
    rw [between, hfront, hserved]
    rfl
  | flushAndReset =>
    cases h with
    | last _ => rfl
    | inner hsome _ => cases hsome

lemma Pipeline.execAll_between {m m' : Memory (p.clusterNet g d)} {es : List (Entrance α)}
    (h : ExecAll m (es.map (clusterFrame g d p)) m') :
    p.between g d m' = es.foldl (Between.serve g d) (p.between g d m) := by
  induction es generalizing m with
  | nil => cases h; rfl
  | cons e es ih =>
    cases h with
    | cons he hes => rw [ih hes, p.exec_between g d he, List.foldl_cons]

def Pipeline.clusterFresh (action : A) (milliseconds : Int32) : Memory (p.clusterNet g d)
  | some k => ⟨p.fresh k⟩
  | none => System.new τ action milliseconds

lemma Pipeline.between_fresh (action : A) (milliseconds : Int32) :
    p.between g d (p.clusterFresh g d action milliseconds) =
      Between.new p action milliseconds :=
  congrArg (Between.mk · _) p.object_fresh

lemma Pipeline.execAll_fresh {action : A} {milliseconds : Int32} {m : Memory (p.clusterNet g d)}
    {es : List (Entrance α)}
    (h : ExecAll (p.clusterFresh g d action milliseconds) (es.map (clusterFrame g d p)) m) :
    p.between g d m = es.foldl (Between.serve g d) (Between.new p action milliseconds) := by
  rw [p.execAll_between g d h, p.between_fresh]

def Pipeline.clusterStart (T : Type) (action : A) (milliseconds : Int32) :
    State (p.clusterNet g d) T :=
  ⟨p.clusterFresh g d action milliseconds, fun _ => none, fun _ => none⟩

lemma Pipeline.clusterStart_idle {T : Type} (action : A) (milliseconds : Int32) :
    Idle (p.clusterStart g d T action milliseconds) :=
  ⟨fun _ => rfl, fun _ => rfl⟩

variable {T : Type} [DecidableEq T]

def Pipeline.clusterStep (s : State (p.clusterNet g d) T) (x : Turn T (Entrance α)) :
    Option (State (p.clusterNet g d) T) := turn (clusterFrame g d p) s x

variable {action : A} {milliseconds : Int32} {xs : List (Turn T (Entrance α))}
  {s : State (p.clusterNet g d) T}

/-- Threads that push into the stages in front of the cluster or reset them, and threads that
flush it, in any interleaving of their steps: where no call is in progress any more, stages and
cluster are as the same calls leave them one after the other. -/
theorem cluster_serial
    (h : run (p.clusterStep g d) (p.clusterStart g d T action milliseconds) xs = some s)
    (hidle : ∀ t, s.thread t = none) :
    ∃ ops, Serial (clusterFrame g d p) (p.clusterStart g d T action milliseconds) xs ops ∧
      (∀ t, servedTo t ops = madeBy t xs) ∧
      p.between g d s.cell =
        (ops.map Prod.snd).foldl (Between.serve g d) (Between.new p action milliseconds) := by
  obtain ⟨ops, hserial, hserved, hexec⟩ := run_turns (p.clusterHierarchy g d)
    (p.clusterLockless g d) (clusterFrame_injective g d p) (p.clusterStart_idle g d _ _) h
  exact ⟨ops, hserial, fun t => hserved t (hidle t), p.execAll_fresh g d (hexec hidle)⟩

/-- A `flushAndReset()` that holds the `lock_` of the cluster in `buffer(2) >> time_cluster(500)`
while a push comes to it. -/
def contended : List (Turn Bool (Entrance ℕ)) :=
  [.call true (.head (.push 1)), .advance true, .advance true, .advance true,
    .call true (.head (.push 2)), .call false .flushAndReset, .advance true, .advance false,
    .advance true, .advance true, .advance true, .advance false, .advance false] ++
    List.replicate 7 (.advance true)

def pairs : Pipeline ℕ (List ℕ) := .cons (.buffer 2) .nil

abbrev lists : Downstream Unit (List (List ℕ)) (List (List ℕ)) := plainAction (List (List ℕ))

theorem cluster_serial_contended :
    ∃ s, run (pairs.clusterStep doubling lists) (pairs.clusterStart doubling lists Bool () 500)
        contended = some s ∧
      ∃ ops, Serial (clusterFrame doubling lists pairs)
          (pairs.clusterStart doubling lists Bool () 500) contended ops ∧
        (∀ t, servedTo t ops = madeBy t contended) ∧
        pairs.between doubling lists s.cell =
          (ops.map Prod.snd).foldl (Between.serve doubling lists)
            (Between.new pairs () 500) := by
  refine ⟨_, rfl, cluster_serial doubling _ pairs rfl ?_⟩
  rintro (_ | _) <;> rfl

lemma Pipeline.cluster_inv
    (h : run (p.clusterStep g d) (p.clusterStart g d T action milliseconds) xs = some s) :
    (p.between g d s.cell).system.Inv := by
  have hrun := run_turn (clusterFrame g d p) (p.clusterStart g d T action milliseconds) xs
  refine cell_run (l := none) (I := System.Inv) ?_ (fun _ _ hs => hs) (hrun.symm.trans h)
    (System.inv_new action milliseconds)
  intro system op hs
  cases op with
  | push item => exact System.inv_push hs item true
  | reset => exact System.inv_reset d hs
  | flushAndReset => exact System.inv_flush d hs.balanced none

/-- At any time, in the middle of calls too, the items that the cluster has taken are handed on
once and in order, wait in it, or were discarded; and once all calls have returned, it has taken
what the stages in front make of the calls on the head, one after the other. -/
theorem cluster_accounts
    (h : run (p.clusterStep g d) (p.clusterStart g d T action milliseconds) xs = some s) :
    (∀ batch ∈ (p.between g d s.cell).system.handed, batch ≠ []) ∧
      (p.between g d s.cell).system.handed.flatten ++
          (p.between g d s.cell).system.cluster.items =
        (p.between g d s.cell).system.pushed.filter
          (fun e => decide (e.serial ∉ (p.between g d s.cell).system.discarded)) ∧
      ((∀ t, s.thread t = none) → ∃ ops : List (T × Entrance α),
        (∀ t, servedTo t ops = madeBy t xs) ∧
          (p.between g d s.cell).system.pushed.map Entry.value =
            ((p.build .action).applyAll g ((ops.map Prod.snd).filterMap Entrance.op)).2) := by
  have hinv := p.cluster_inv g d h
  refine ⟨hinv.balanced.batch_ne, hinv.balanced.account, fun hidle => ?_⟩
  obtain ⟨ops, -, hserved, hexec⟩ := run_turns (p.clusterHierarchy g d)
    (p.clusterLockless g d) (clusterFrame_injective g d p) (p.clusterStart_idle g d _ _) h
  obtain ⟨fs, hmatches⟩ :=
    (Between.new p action milliseconds).foldl_matches g d (ops.map Prod.snd)
  rw [← p.execAll_fresh g d (hexec hidle)] at hmatches
  exact ⟨ops, fun t => hserved t (hidle t), hmatches.pushed⟩

theorem cluster_accounts_contended :
    ∃ s, run (pairs.clusterStep doubling lists) (pairs.clusterStart doubling lists Bool () 500)
        contended = some s ∧
      (pairs.between doubling lists s.cell).system.handed.flatten ++
          (pairs.between doubling lists s.cell).system.cluster.items =
        [⟨[1, 2], 0⟩] := by
  obtain ⟨s, hs, hkept⟩ : ∃ s, run (pairs.clusterStep doubling lists)
      (pairs.clusterStart doubling lists Bool () 500) contended = some s ∧
      (pairs.between doubling lists s.cell).system.pushed.filter
        (fun e => decide (e.serial ∉
          (pairs.between doubling lists s.cell).system.discarded)) =
        [⟨[1, 2], 0⟩] := ⟨_, rfl, rfl⟩
  exact ⟨s, hs, (cluster_accounts doubling _ pairs hs).2.1.trans hkept⟩

def Entrance.item : Entrance α → Option α
  | .head (.push item) => some item
  | .head .reset => none
  | .flushAndReset => none

/-- The items that are pushed by the calls, each with the thread. -/
def itemsOf (ops : List (T × Entrance α)) : List (T × α) :=
  ops.filterMap fun op => op.2.item.map (Prod.mk op.1)

lemma servedTo_itemsOf (t : T) (ops : List (T × Entrance α)) :
    servedTo t (itemsOf ops) = (servedTo t ops).filterMap Entrance.item := by
  unfold servedTo itemsOf
  rw [List.filterMap_filterMap, List.filterMap_filterMap]
  refine List.filterMap_congr fun op _ => ?_
  cases hitem : op.2.item <;> by_cases hu : op.1 = t <;> simp [hitem, hu]

omit [DecidableEq T] in
lemma filterMap_itemsOf {ops : List (T × Entrance α)} (h : ∀ op ∈ ops, op.2 ≠ .head .reset) :
    (ops.map Prod.snd).filterMap Entrance.op = ((itemsOf ops).map Prod.snd).map .push := by
  unfold itemsOf
  rw [List.filterMap_map, List.map_filterMap, List.map_filterMap]
  refine List.filterMap_congr fun op hop => ?_
  obtain ⟨t, e⟩ := op
  cases e with
  | head op =>
    cases op with
    | push item => rfl
    | reset => exact absurd rfl (h _ hop)
  | flushAndReset => rfl

/-- Threads that push in front and threads that flush, with stages behind the cluster that
remember nothing across batches: once all calls have returned, the batches and what waits are
what the stages in front make of some interleaving of the items that each thread has pushed, and
the action has received what the stages behind make of the batches. -/
theorem cluster_meaning {p : Pipeline α τ} (hp : p.Positive) {q : Pipeline (List τ) ω}
    (hq : q.Positive) (hf : q.split.front.Forgetful)
    {s : State (p.clusterNet g (pipelineBehind (ω := ω) g)) T}
    (h : run (p.clusterStep g (pipelineBehind g))
      (p.clusterStart g (pipelineBehind g) T (q.build .action).moved milliseconds) xs = some s)
    (hidle : ∀ t, s.thread t = none) (hpush : ∀ t, .call t (.head .reset) ∉ xs) :
    ∃ items : List (T × α),
      (∀ t, servedTo t items = (madeBy t xs).filterMap Entrance.item) ∧
        (p.between g _ s.cell).system.batches.flatten ++
            (p.between g _ s.cell).system.cluster.items.map Entry.value =
          p.meaning (items.map Prod.snd) ∧
        (∀ batch ∈ (p.between g _ s.cell).system.batches, batch ≠ []) ∧
        (p.between g _ s.cell).system.received =
          q.meaning (p.between g _ s.cell).system.batches := by
  obtain ⟨ops, -, hserved, hexec⟩ := run_turns (p.clusterHierarchy g _)
    (p.clusterLockless g _) (clusterFrame_injective g _ p) (p.clusterStart_idle g _ _ _) h
  obtain ⟨fs, hmatches⟩ := (Between.new p (q.build .action).moved milliseconds).foldl_matches g
    (pipelineBehind g) (ops.map Prod.snd)
  have hmade : ∀ t, servedTo t ops = madeBy t xs := fun t => hserved t (hidle t)
  have hreset : ∀ op ∈ ops, op.2 ≠ .head .reset := by
    intro op hop hreset
    exact hpush op.1 (hreset ▸ call_of_served hmade hop)
  rw [← p.execAll_fresh g _ (hexec hidle), filterMap_itemsOf hreset] at hmatches
  refine ⟨itemsOf ops, fun t => ?_, hmatches.delivered g hp hq hf⟩
  rw [servedTo_itemsOf, hmade]

def oddContended : List (Turn Bool (Entrance ℕ)) :=
  [.call true (.head (.push 1)), .call false .flushAndReset, .advance false, .advance true,
    .advance true, .advance true, .advance true, .advance false, .advance false] ++
    List.replicate 7 (.advance true)

theorem cluster_meaning_odd :
    ∃ s, run (Between.odd.clusterStep doubling (pipelineBehind doubling))
        (Between.odd.clusterStart doubling (pipelineBehind doubling) Bool
          (Between.nonEmpty.build .action).moved 500) oddContended = some s ∧
      ∃ items : List (Bool × ℕ),
        (∀ t, servedTo t items = (madeBy t oddContended).filterMap Entrance.item) ∧
          (Between.odd.between doubling _ s.cell).system.batches.flatten ++
              (Between.odd.between doubling _ s.cell).system.cluster.items.map Entry.value =
            Between.odd.meaning (items.map Prod.snd) := by
  obtain ⟨s, hs, hidle⟩ : ∃ s, run (Between.odd.clusterStep doubling (pipelineBehind doubling))
      (Between.odd.clusterStart doubling (pipelineBehind doubling) Bool
        (Between.nonEmpty.build .action).moved 500) oddContended = some s ∧
        ∀ t, s.thread t = none := ⟨_, rfl, by rintro (_ | _) <;> rfl⟩
  obtain ⟨items, hitems, hmeaning, -⟩ := cluster_meaning doubling (p := Between.odd)
    ⟨trivial, trivial⟩ (q := Between.nonEmpty) ⟨trivial, trivial⟩ trivial hs hidle (by decide)
  exact ⟨s, hs, items, hitems, hmeaning⟩

/-- No call waits for ever, a flush by a timer included: as without the cluster, with one more
place to go through. -/
theorem cluster_finish
    (h : run (p.clusterStep g d) (p.clusterStart g d T action milliseconds) xs = some s) :
    ((∃ t, s.thread t ≠ none) → ∃ u s', p.clusterStep g d s (.advance u) = some s') ∧
      (∀ (ts : List T) (s' : State (p.clusterNet g d) T),
        run (p.clusterStep g d) s (ts.map .advance) = some s' →
          ∀ t, ts.count t ≤ 4 * (p.length + 1) + 3) ∧
      ∃ (ts : List T) (s' : State (p.clusterNet g d) T),
        run (p.clusterStep g d) s (ts.map .advance) = some s' ∧ ∀ t, s'.thread t = none :=
  turns_finish (p.clusterHierarchy g d) (p.clusterStart_idle g d _ _) h

/-- Both threads are in a call, and one waits for the other. -/
theorem cluster_finish_contended :
    ∃ s, run (pairs.clusterStep doubling lists) (pairs.clusterStart doubling lists Bool () 500)
        (contended.take 11) = some s ∧ s.thread true ≠ none ∧ s.thread false ≠ none ∧
      ∃ u s', pairs.clusterStep doubling lists s (.advance u) = some s' := by
  obtain ⟨s, hs, htrue, hfalse⟩ : ∃ s, run (pairs.clusterStep doubling lists)
      (pairs.clusterStart doubling lists Bool () 500) (contended.take 11) = some s ∧
      s.thread true ≠ none ∧ s.thread false ≠ none :=
    ⟨_, rfl, Option.some_ne_none _, Option.some_ne_none _⟩
  exact ⟨s, hs, htrue, hfalse, (cluster_finish doubling _ pairs hs).1 ⟨true, htrue⟩⟩

end CppMisc.Stream
