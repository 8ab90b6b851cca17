import CppMisc.MonitorOrder
import CppMisc.MonitorProgress

/-! A net of monitors as its callers see it: the calls of an interface, each of which comes in
at a place of its own, and threads that make them. -/
namespace CppMisc.Monitors
open Runs

variable {L : Type} {M : Net L} {T O : Type}

/-- A thread makes a call of the interface, or the scheduler lets it take its next step. -/
inductive Turn (T O : Type)
  | call (t : T) (op : O)
  | advance (t : T)
  deriving DecidableEq

def Turn.event (entry : O → Frame M) : Turn T O → Event M T
  | .call t op => .call t (entry op)
  | .advance t => .advance t

/-- Those of a list that are marked for `t`. -/
def servedTo {β : Type} [DecidableEq T] (t : T) (ops : List (T × β)) : List β :=
  ops.filterMap fun op => if op.1 = t then some op.2 else none

/-- The calls that a thread makes; `servedTo` picks those of them that are in a serial order. -/
def madeBy [DecidableEq T] (t : T) (xs : List (Turn T O)) : List O :=
  xs.filterMap fun
    | .call u op => if u = t then some op else none
    | .advance _ => none

variable [DecidableEq T] (entry : O → Frame M)

lemma mem_servedTo {t : T} {op : O} {ops : List (T × O)} : op ∈ servedTo t ops ↔ (t, op) ∈ ops := by
  unfold servedTo
  rw [List.mem_filterMap]
  constructor
  · rintro ⟨⟨u, op'⟩, hop, hserved⟩
    dsimp only at hserved
    split_ifs at hserved with hu
    obtain rfl := Option.some.inj hserved
    exact hu ▸ hop
  · exact fun hop => ⟨(t, op), hop, if_pos rfl⟩

lemma mem_madeBy {t : T} {op : O} {xs : List (Turn T O)} : op ∈ madeBy t xs ↔ .call t op ∈ xs := by
  unfold madeBy
  rw [List.mem_filterMap]
  constructor
  · rintro ⟨x, hx, hmade⟩
    cases x with
    | call u op' =>
      dsimp only at hmade
      split_ifs at hmade with hu
      obtain rfl := Option.some.inj hmade
      exact hu ▸ hx
    | advance u => cases hmade
  · exact fun hx => ⟨.call t op, hx, if_pos rfl⟩

/-- What has been served was called for. -/
lemma call_of_served {xs : List (Turn T O)} {ops : List (T × O)}
    (h : ∀ t, servedTo t ops = madeBy t xs) {op : T × O} (hop : op ∈ ops) :
    .call op.1 op.2 ∈ xs := by
  rw [← mem_madeBy, ← h op.1, mem_servedTo]
  exact hop

lemma callsOf_event (t : T) (xs : List (Turn T O)) :
    callsOf t (xs.map (Turn.event entry)) = (madeBy t xs).map entry := by
  unfold callsOf madeBy
  rw [List.filterMap_map, List.map_filterMap]
  refine List.filterMap_congr fun x _ => ?_
  cases x with
  | call u op =>
    by_cases hu : u = t <;> simp [Turn.event, hu]
  | advance u => rfl

/-- The calls of the interface as calls of the net. -/
def entered (ops : List (T × O)) : List (T × Frame M) := ops.map fun op => (op.1, entry op.2)

lemma effectsOf_entered (t : T) (ops : List (T × O)) :
    effectsOf t (entered entry ops) = (servedTo t ops).map entry := by
  unfold effectsOf servedTo entered
  rw [List.filterMap_map, List.map_filterMap]
  refine List.filterMap_congr fun op _ => ?_
  by_cases hu : op.1 = t <;> simp [hu]

/-- The calls that have taken effect are calls of the interface. -/
lemma exists_entered {xs : List (Turn T O)} {fs : List (T × Frame M)}
    (h : ∀ t, effectsOf t fs <+: callsOf t (xs.map (Turn.event entry))) :
    ∃ ops, fs = entered entry ops := by
  have hop : ∀ f ∈ fs, ∃ op : T × O, (op.1, entry op.2) = f := by
    rintro ⟨t, f⟩ hf
    have hin : f ∈ effectsOf t fs := List.mem_filterMap.mpr ⟨(t, f), hf, by simp⟩
    have hmade := (h t).subset hin
    rw [callsOf_event] at hmade
    obtain ⟨op, -, hop⟩ := List.mem_map.mp hmade
    exact ⟨(t, op), by rw [hop]⟩
  have hrange : fs ∈ Set.range (List.map fun op : T × O => (op.1, entry op.2)) := by
    rw [Set.range_list_map]
    exact hop
  obtain ⟨ops, hops⟩ := hrange
  exact ⟨ops, hops.symm⟩

variable [DecidableEq L]

def turn (s : State M T) (x : Turn T O) : Option (State M T) := step s (x.event entry)

lemma run_turn (s : State M T) (xs : List (Turn T O)) :
    run (turn entry) s xs = run step s (xs.map (Turn.event entry)) := by
  induction xs generalizing s with
  | nil => rfl
  | cons x xs ih =>
    simp only [run_cons, List.map_cons, ih]
    rfl

/-- A serial order of the calls of a run. Cut the run anywhere: the calls that have returned come
before the cut, and those made after it behind the cut. -/
structure Serial (s₀ : State M T) (xs : List (Turn T O)) (ops : List (T × O)) : Prop where
  served : ∀ t, servedTo t ops <+: madeBy t xs
  cut : ∀ ys zs s, xs = ys ++ zs → run (turn entry) s₀ ys = some s →
    ∃ before after, ops = before ++ after ∧ ∀ t, servedTo t before <+: madeBy t ys ∧
      (s.thread t = none → servedTo t before = madeBy t ys)

variable {entry}

lemma order_entered (H : Hierarchy M) (hM : Lockless M) (hentry : Function.Injective entry)
    {s₀ s : State M T} (h₀ : Idle s₀) {xs : List (Turn T O)} (h : run (turn entry) s₀ xs = some s) :
    ∃ ops, order s₀ (xs.map (Turn.event entry)) = entered entry ops ∧
      ∀ t, servedTo t ops <+: madeBy t xs ∧
        (s.thread t = none → servedTo t ops = madeBy t xs) := by
  rw [run_turn] at h
  have hcalls := (run_serial H hM h₀ h).1
  obtain ⟨ops, hops⟩ := exists_entered entry fun t => ⟨_, (hcalls t).symm⟩
  refine ⟨ops, hops, fun t => ?_⟩
  have ht := hcalls t
  rw [hops, effectsOf_entered, callsOf_event] at ht
  constructor
  · have hprefix : (servedTo t ops).map entry <+: (madeBy t xs).map entry := ⟨_, ht.symm⟩
    obtain ⟨made, hmade, heq⟩ := List.prefix_map_iff.mp hprefix
    rwa [List.map_injective_iff.mpr hentry heq]
  · intro hnone
    have hwait : waiting s t = [] := by rw [waiting, hnone]
    rw [hwait, List.append_nil] at ht
    exact (List.map_injective_iff.mpr hentry ht).symm

lemma serial_of_order (H : Hierarchy M) (hM : Lockless M) (hentry : Function.Injective entry)
    {s₀ : State M T} (h₀ : Idle s₀) {xs : List (Turn T O)} {ops : List (T × O)}
    (hserved : ∀ t, servedTo t ops <+: madeBy t xs)
    (hops : order s₀ (xs.map (Turn.event entry)) = entered entry ops) :
    Serial entry s₀ xs ops := by
  refine ⟨hserved, ?_⟩
  rintro ys zs u rfl hu
  obtain ⟨before, hbefore, hcut⟩ := order_entered H hM hentry h₀ hu
  rw [run_turn] at hu
  rw [List.map_append, order_append hu, hbefore] at hops
  obtain ⟨before', after, rfl, hbefore', -⟩ := List.append_eq_map_iff.mp hops
  refine ⟨before', after, rfl, fun t => ?_⟩
  have hsame : servedTo t before' = servedTo t before := by
    have heffects : effectsOf t (entered entry before') = effectsOf t (entered entry before) :=
      congrArg (effectsOf t) hbefore'
    rw [effectsOf_entered, effectsOf_entered] at heffects
    exact List.map_injective_iff.mpr hentry heffects
  rw [hsame]
  exact hcut t

/-- The calls of a run have a serial order. A thread that has returned has all of its calls in
it, and where all have, the cells are as the calls leave them one after the other. -/
theorem run_turns (H : Hierarchy M) (hM : Lockless M) (hentry : Function.Injective entry)
    {s₀ s : State M T} (h₀ : Idle s₀) {xs : List (Turn T O)}
    (h : run (turn entry) s₀ xs = some s) :
    ∃ ops, Serial entry s₀ xs ops ∧ (∀ t, s.thread t = none → servedTo t ops = madeBy t xs) ∧
      ((∀ t, s.thread t = none) → ExecAll s₀.cell ((ops.map Prod.snd).map entry) s.cell) := by
  obtain ⟨ops, hops, hserved⟩ := order_entered H hM hentry h₀ h
  refine ⟨ops, serial_of_order H hM hentry h₀ (fun t => (hserved t).1) hops,
    fun t => (hserved t).2, fun hidle => ?_⟩
  rw [run_turn] at h
  have hexec := (run_serial H hM h₀ h).2 ((kept_run (kept_idle h₀) h).idle hidle)
  rw [hops, entered, List.map_map] at hexec
  rwa [List.map_map]

/-- The threads that a run lets call. -/
def callers (xs : List (Turn T O)) : List T :=
  xs.filterMap fun
    | .call t _ => some t
    | .advance _ => none

lemma mem_callers {s₀ s : State M T} (h₀ : Idle s₀) {xs : List (Turn T O)}
    (h : run (turn entry) s₀ xs = some s) {t : T} (ht : s.thread t ≠ none) : t ∈ callers xs := by
  rw [run_turn] at h
  obtain ⟨a, ha⟩ := Option.ne_none_iff_exists'.mp ht
  obtain ⟨x, hx, hevent⟩ := List.mem_map.mp (entry_run h h₀ ha)
  refine List.mem_filterMap.mpr ⟨x, hx, ?_⟩
  cases x with
  | call u op =>
    obtain ⟨rfl, -⟩ := Event.call.inj hevent
    rfl
  | advance u => cases hevent

lemma run_advance (s : State M T) (ts : List T) :
    run (turn entry) s (ts.map .advance) = run step s (ts.map .advance) := by
  rw [run_turn, List.map_map]
  rfl

/-- No call waits for ever. Whatever the threads have done, some thread that is in a call can
take a step; each takes a bounded number of steps in its call; and there is a way for all of
them to return. -/
theorem turns_finish (H : Hierarchy M) {s₀ s : State M T} (h₀ : Idle s₀) {xs : List (Turn T O)}
    (h : run (turn entry) s₀ xs = some s) :
    ((∃ t, s.thread t ≠ none) → ∃ u s', turn entry s (.advance u) = some s') ∧
      (∀ (ts : List T) (s' : State M T), run (turn entry) s (ts.map .advance) = some s' →
        ∀ t, ts.count t ≤ 4 * H.depth + 3) ∧
      ∃ (ts : List T) (s' : State M T),
        run (turn entry) s (ts.map .advance) = some s' ∧ ∀ t, s'.thread t = none := by
  have hcallers : ∀ t, s.thread t ≠ none → t ∈ (callers xs).toFinset := fun t ht =>
    List.mem_toFinset.mpr (mem_callers h₀ h ht)
  rw [run_turn] at h
  have hkept := kept_run (kept_idle h₀) h
  refine ⟨?_, ?_, ?_⟩
  · rintro ⟨t, ht⟩
    obtain ⟨a, ha⟩ := Option.ne_none_iff_exists'.mp ht
    exact hkept.exists_advance H ha
  · intro ts s' hrun t
    rw [run_advance] at hrun
    have hcount := count_advance_le H hrun t
    exact (Nat.le_add_right ..).trans (hcount.trans (H.stepsLeft_run h h₀ t))
  · obtain ⟨ts, s', hrun, hs'⟩ := exists_finish H hkept (callers xs).toFinset hcallers
    exact ⟨ts, s', by rw [run_advance, hrun], hs'.thread⟩

/-! A part of a net, whose calls do not leave it. -/

/-- The places of `M'` as places of `M`; a cell there may hold more than it does in `M'`. -/
structure Part {L' : Type} (M' : Net L') (M : Net L) where
  place : L' → L
  injective : Function.Injective place
  call : (l : L') → M'.Call l → M.Call (place l)
  cell : (l : L') → M.Cell (place l) → M'.Cell l
  accept : ∀ l s c, (M'.accept l (cell l s) c).1 = cell l (M.accept (place l) s (call l c)).1
  next : ∀ l s c, (M.accept (place l) s (call l c)).2 =
    (M'.accept l (cell l s) c).2.map fun f => ⟨place f.1, call f.1 f.2⟩
  finish : ∀ l s c, M'.finish l (cell l s) c = cell l (M.finish (place l) s (call l c))

namespace Part

variable {L' : Type} {M' : Net L'} (P : Part M' M)

def frame (f : Frame M') : Frame M := ⟨P.place f.1, P.call f.1 f.2⟩

def cells (m : Memory M) : Memory M' := fun l => P.cell l (m (P.place l))

lemma cells_update_of_ne (m : Memory M) {l : L} (hl : ∀ l', P.place l' ≠ l) (s : M.Cell l) :
    P.cells (Function.update m l s) = P.cells m :=
  funext fun l' => congrArg (P.cell l') (Function.update_of_ne (hl l') ..)

variable [DecidableEq L']

lemma cells_update (m : Memory M) (l : L') (s : M.Cell (P.place l)) :
    P.cells (Function.update m (P.place l) s) = Function.update (P.cells m) l (P.cell l s) := by
  funext i
  by_cases hi : i = l
  · subst hi
    rw [cells, Function.update_self, Function.update_self]
  · rw [cells, Function.update_of_ne (P.injective.ne hi), Function.update_of_ne hi, cells]

/-- A call at a place of the part is one of the part alone, and leaves the other places as
they are. -/
lemma exec {m m' : Memory M} {F : Frame M} (h : Exec m F m') {f : Frame M'}
    (hf : F = P.frame f) :
    Exec (P.cells m) f (P.cells m') ∧ ∀ l, (∀ l', P.place l' ≠ l) → m' l = m l := by
  induction h generalizing f with
  | @last m F hnone =>
    subst hf
    have hlast : (M'.accept f.1 (P.cells m f.1) f.2).2 = none :=
      Option.map_eq_none_iff.mp ((P.next f.1 (m (P.place f.1)) f.2).symm.trans hnone)
    refine ⟨?_, fun l hl => Function.update_of_ne (hl f.1).symm ..⟩
    have hcells := P.cells_update m f.1 (M.accept _ (m (P.place f.1)) (P.call f.1 f.2)).1
    rw [← P.accept] at hcells
    exact hcells.symm ▸ Exec.last hlast
  | @inner m m' F F₁ hsome hexec ih =>
    subst hf
    obtain ⟨f₁, hf₁, rfl⟩ :=
      Option.map_eq_some_iff.mp ((P.next f.1 (m (P.place f.1)) f.2).symm.trans hsome)
    obtain ⟨hinner, hframe⟩ := ih rfl
    have hcells := P.cells_update m f.1 (M.accept _ (m (P.place f.1)) (P.call f.1 f.2)).1
    rw [← P.accept] at hcells
    have hcells' := P.cells_update m' f.1 (M.finish _ (m' (P.place f.1)) (P.call f.1 f.2))
    rw [← P.finish] at hcells'
    refine ⟨hcells'.symm ▸ Exec.inner hf₁ (hcells ▸ hinner), fun l hl => ?_⟩
    exact (Function.update_of_ne (hl f.1).symm ..).trans
      ((hframe l hl).trans (Function.update_of_ne (hl f.1).symm ..))

end Part

end CppMisc.Monitors
