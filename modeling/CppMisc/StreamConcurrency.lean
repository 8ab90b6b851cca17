import CppMisc.StreamThreads

/-! What the locks of `stream4.cc` are for: threads that push into one pipeline and reset it
see it as if their calls came one after the other, and no call waits for ever. -/
namespace CppMisc.Stream
open Monitors Runs

variable {α ω T : Type}

/-- The calls come in at the head of the pipeline. -/
def headFrame (g : Growth) (p : Pipeline α ω) (op : Op α) : Frame (p.net g) := ⟨0, op⟩

lemma headFrame_injective (g : Growth) (p : Pipeline α ω) :
    Function.Injective (headFrame g p) := by
  rintro op op' h
  exact eq_of_heq (Sigma.mk.inj_iff.mp h).2

lemma Pipeline.execAll_object (g : Growth) (p : Pipeline α ω) {m m' : Memory (p.net g)}
    {ops : List (Op α)} (h : ExecAll m (ops.map (headFrame g p)) m') :
    ∃ out, (p.object m).applyAll g ops = (p.object m', out) ∧
      p.received m' = p.received m ++ out := by
  induction ops generalizing m with
  | nil => cases h; exact ⟨[], rfl, (List.append_nil _).symm⟩
  | cons op ops ih =>
    cases h with
    | cons hop hops =>
      obtain ⟨out, hout, hrec⟩ := p.exec_object g hop
      obtain ⟨outs, houts, hrecs⟩ := ih hops
      refine ⟨out ++ outs, ?_, by rw [hrecs, hrec, List.append_assoc]⟩
      rw [Object.applyAll, hout]
      dsimp only
      rw [houts]

lemma execAll_close (g : Growth) (b : Builder α ω) {m : Memory (b.stages.net g)}
    {ops : List (Op α)}
    (h : ExecAll (M := b.stages.net g) b.stages.fresh (ops.map (headFrame g b.stages)) m) :
    b.close.applyAll g ops = (b.stages.object m, b.stages.received m) := by
  obtain ⟨out, hout, hrec⟩ := b.stages.execAll_object g h
  rw [b.stages.object_fresh, ← b.build_stages] at hout
  rw [b.stages.received_fresh, List.nil_append] at hrec
  rw [Builder.close, hout, hrec]

/-- A newly built pipeline, and no call. -/
def Pipeline.start (g : Growth) (p : Pipeline α ω) (T : Type) : State (p.net g) T :=
  ⟨p.fresh, fun _ => none, fun _ => none⟩

lemma Pipeline.start_idle (g : Growth) (p : Pipeline α ω) : Idle (p.start g T) :=
  ⟨fun _ => rfl, fun _ => rfl⟩

variable [DecidableEq T]

def Pipeline.step (g : Growth) (p : Pipeline α ω) (s : State (p.net g) T) (x : Turn T (Op α)) :
    Option (State (p.net g) T) := turn (headFrame g p) s x

/-- Any number of threads that push into a newly built pipeline and reset it, in any
interleaving of their steps: where no call is in progress any more, the pipeline is in the state
and its action has received the items that the same calls leave behind one after the other, in
an order that keeps each thread's own and puts what has returned before what is called later. -/
theorem concurrent_serial (g : Growth) (b : Builder α ω) {xs : List (Turn T (Op α))}
    {s : State (b.stages.net g) T}
    (h : run (b.stages.step g) (b.stages.start g T) xs = some s)
    (hidle : ∀ t, s.thread t = none) :
    ∃ ops, Serial (headFrame g b.stages) (b.stages.start g T) xs ops ∧
      (∀ t, servedTo t ops = madeBy t xs) ∧
      b.close.applyAll g (ops.map Prod.snd) =
        (b.stages.object s.cell, b.stages.received s.cell) := by
  obtain ⟨ops, hserial, hserved, hexec⟩ := run_turns (b.stages.hierarchy g) (b.stages.lockless g)
    (headFrame_injective g b.stages) (b.stages.start_idle g) h
  exact ⟨ops, hserial, fun t => hserved t (hidle t), execAll_close g b (hexec hidle)⟩

/-- Two threads in front of and behind each other in `buffer(2) >> window(2)`. -/
def crossing : List (Turn Bool (Op ℕ)) :=
  [.call true (.push 1), .call false (.push 2), .advance false, .advance false,
    .advance false, .advance true, .advance true, .advance true, .advance true, .advance true,
    .advance true, .advance true, .advance true, .advance true, .advance true, .advance true]

theorem concurrent_serial_main :
    ∃ s, run (mainBuilder.stages.step doubling) (mainBuilder.stages.start doubling Bool) crossing =
        some s ∧
      ∃ ops, Serial (headFrame doubling mainBuilder.stages) (mainBuilder.stages.start doubling Bool)
          crossing ops ∧
        (∀ t, servedTo t ops = madeBy t crossing) ∧
        mainBuilder.close.applyAll doubling (ops.map Prod.snd) =
          (mainBuilder.stages.object s.cell, mainBuilder.stages.received s.cell) := by
  refine ⟨_, rfl, concurrent_serial doubling mainBuilder rfl ?_⟩
  rintro (_ | _) <;> rfl

lemma exists_pushed {xs : List (Turn T (Op α))} {ops : List (T × Op α)}
    (hmade : ∀ t, servedTo t ops = madeBy t xs) (hpush : ∀ t, .call t .reset ∉ xs) :
    ∃ items : List (T × α), ops = items.map fun it => (it.1, .push it.2) := by
  have hitem : ∀ op ∈ ops, ∃ it : T × α, (it.1, Op.push it.2) = op := by
    rintro ⟨t, op⟩ hop
    cases op with
    | push item => exact ⟨(t, item), rfl⟩
    | reset => exact absurd (call_of_served hmade hop) (hpush t)
  have hrange : ops ∈ Set.range (List.map fun it : T × α => (it.1, Op.push it.2)) := by
    rw [Set.range_list_map]
    exact hitem
  obtain ⟨items, hitems⟩ := hrange
  exact ⟨items, hitems.symm⟩

/-- Threads that only push: the action receives what the stages make of some interleaving of the
items that each thread pushes, each thread's own in their order. -/
theorem concurrent_meaning (g : Growth) (b : Builder α ω) (hb : b.Positive)
    {xs : List (Turn T (Op α))} {s : State (b.stages.net g) T}
    (h : run (b.stages.step g) (b.stages.start g T) xs = some s)
    (hidle : ∀ t, s.thread t = none) (hpush : ∀ t, .call t .reset ∉ xs) :
    ∃ items : List (T × α), (∀ t, madeBy t xs = (servedTo t items).map .push) ∧
      b.stages.received s.cell = b.stages.meaning (items.map Prod.snd) := by
  obtain ⟨ops, -, hserved, hexec⟩ := run_turns (b.stages.hierarchy g) (b.stages.lockless g)
    (headFrame_injective g b.stages) (b.stages.start_idle g) h
  have hmade : ∀ t, servedTo t ops = madeBy t xs := fun t => hserved t (hidle t)
  obtain ⟨items, rfl⟩ := exists_pushed hmade hpush
  have happly := execAll_close g b (hexec hidle)
  rw [List.map_map] at happly
  have hpushes : (items.map (Prod.snd ∘ fun it : T × α => (it.1, Op.push it.2))) =
      (items.map Prod.snd).map .push := by rw [List.map_map]; rfl
  rw [hpushes, Object.applyAll_push, b.close_settle] at happly
  refine ⟨items, fun t => ?_, ?_⟩
  · rw [← hmade t, servedTo, servedTo, List.filterMap_map, List.map_filterMap]
    refine List.filterMap_congr fun it _ => ?_
    by_cases ht : it.1 = t <;> simp [ht]
  · rw [← b.stages.pushAll_closed g (b.positive_stages.mpr hb), happly]

theorem concurrent_meaning_main :
    ∃ s, run (mainBuilder.stages.step doubling) (mainBuilder.stages.start doubling Bool) crossing =
        some s ∧
      ∃ items : List (Bool × ℕ), (∀ t, madeBy t crossing = (servedTo t items).map .push) ∧
        mainBuilder.stages.received s.cell = mainBuilder.stages.meaning (items.map Prod.snd) := by
  refine ⟨_, rfl, concurrent_meaning doubling mainBuilder ⟨Nat.zero_lt_two, Nat.zero_lt_two⟩ rfl
    ?_ (by decide)⟩
  rintro (_ | _) <;> rfl

/-! What the threads can be in at once. -/

lemma Pipeline.entry_zero (g : Growth) (p : Pipeline α ω) {xs : List (Turn T (Op α))}
    {s : State (p.net g) T} (h : run (p.step g) (p.start g T) xs = some s) {t : T}
    {a : Active (p.net g)} (ht : s.thread t = some a) : a.entry.1 = 0 := by
  have hrun := run_turn (headFrame g p) (p.start g T) xs
  obtain ⟨x, -, hx⟩ := List.mem_map.mp (entry_run (hrun.symm.trans h) (p.start_idle g) ht)
  cases x with
  | call u op =>
    obtain ⟨-, hentry⟩ := Event.call.inj hx
    rw [← hentry]
    rfl
  | advance u => cases hx

/-- Where calls go to the next place or back to the first one, a thread is in every place below
the one on top. -/
lemma exists_place {M : Net ℕ} (hnext : ∀ f' f : Frame M, Calls f' f → f'.1 = f.1 + 1 ∨ f'.1 = 0)
    {f : Frame M} {fs : List (Frame M)} (h : (f :: fs).IsChain Calls)
    (hlast : ((f :: fs).getLast (by simp)).1 = 0) {k : ℕ} (hk : k ≤ f.1) :
    ∃ f' ∈ f :: fs, f'.1 = k := by
  induction fs generalizing f with
  | nil =>
    have hzero : f.1 = 0 := hlast
    exact ⟨f, List.mem_cons_self, by omega⟩
  | cons f₁ fs ih =>
    rcases Nat.eq_or_lt_of_le hk with rfl | hlt
    · exact ⟨f, List.mem_cons_self, rfl⟩
    · obtain ⟨hcall, hrest⟩ := List.isChain_cons_cons.mp h
      have hle : k ≤ f₁.1 := by
        rcases hnext f f₁ hcall with hf | hf <;> omega
      obtain ⟨f', hf', hk'⟩ := ih hrest (by rwa [List.getLast_cons (by simp)] at hlast) hle
      exact ⟨f', List.mem_cons_of_mem _ hf', hk'⟩

/-- Behind a `Buffer` or a `Window` there is never more than one thread: in the stages that it
feeds, and in the action. -/
theorem behind_lock_exclusive (g : Growth) (p : Pipeline α ω) {xs : List (Turn T (Op α))}
    {s : State (p.net g) T} (h : run (p.step g) (p.start g T) xs = some s) {k : ℕ}
    (hk : p.guarded k = true) :
    ∀ t u a c, s.thread t = some a → s.thread u = some c → k < a.top.1 → k < c.top.1 → t = u := by
  have hrun := run_turn (headFrame g p) (p.start g T) xs
  have hkept := kept_run (kept_idle (p.start_idle g)) (hrun.symm.trans h)
  have hholds : ∀ {v : T} {b : Active (p.net g)}, s.thread v = some b → k < b.top.1 →
      ∃ f ∈ b.held, f.1 = k := by
    intro v b hv hb
    obtain ⟨f, hf, hfk⟩ := exists_place
      (fun f' f ⟨c, hc⟩ => .inl (p.accept_next g hc).1) (hkept.chain v b hv)
      (p.entry_zero g h hv) hb.le
    have hstack : f ∈ b.stack := by
      rcases List.mem_cons.mp hf with rfl | hf
      · omega
      · exact hf
    refine ⟨f, ?_, hfk⟩
    unfold Active.held
    cases b.point with
    | enter => exact hstack
    | body => exact List.mem_cons_of_mem _ hstack
    | back => exact List.mem_cons_of_mem _ hstack
    | leave => exact List.mem_cons_of_mem _ hstack
  intro t u a c ht hu hta huc
  obtain ⟨f, hf, hfk⟩ := hholds ht hta
  obtain ⟨f', hf', hfk'⟩ := hholds hu huc
  have hguard : p.guarded f.1 = true := by rwa [hfk]
  exact hkept.holder_unique ht hu hf hf' (hfk.trans hfk'.symm) hguard

/-- The thread `true` in the action. -/
theorem behind_lock_exclusive_main :
    ∃ s, run (mainBuilder.stages.step doubling) (mainBuilder.stages.start doubling Bool)
        (crossing.take 9) = some s ∧ (∃ a, s.thread true = some a ∧ a.top.1 = 2) ∧
      ∀ t u a c, s.thread t = some a → s.thread u = some c → 1 < a.top.1 → 1 < c.top.1 → t = u := by
  obtain ⟨s, hs, hin⟩ : ∃ s, run (mainBuilder.stages.step doubling)
      (mainBuilder.stages.start doubling Bool) (crossing.take 9) = some s ∧
      ∃ a, s.thread true = some a ∧ a.top.1 = 2 := ⟨_, rfl, _, rfl, rfl⟩
  exact ⟨s, hs, hin, behind_lock_exclusive doubling mainBuilder.stages hs (k := 1) rfl⟩

/-- No call waits for ever. Whatever the threads have done, some thread that is in a call can
take a step; each thread takes a bounded number of steps in its call; and there is a way for
all of them to return. -/
theorem concurrent_finish (g : Growth) (p : Pipeline α ω) {xs : List (Turn T (Op α))}
    {s : State (p.net g) T} (h : run (p.step g) (p.start g T) xs = some s) :
    ((∃ t, s.thread t ≠ none) → ∃ u s', p.step g s (.advance u) = some s') ∧
      (∀ (ts : List T) (s' : State (p.net g) T), run (p.step g) s (ts.map .advance) = some s' →
        ∀ t, ts.count t ≤ 4 * p.length + 3) ∧
      ∃ (ts : List T) (s' : State (p.net g) T),
        run (p.step g) s (ts.map .advance) = some s' ∧ ∀ t, s'.thread t = none := by
  exact turns_finish (p.hierarchy g) (p.start_idle g) h

theorem concurrent_finish_main :
    ∃ s, run (mainBuilder.stages.step doubling) (mainBuilder.stages.start doubling Bool)
        (crossing.take 5) = some s ∧
      ∃ u s', mainBuilder.stages.step doubling s (.advance u) = some s' := by
  obtain ⟨s, hs, hin⟩ : ∃ s, run (mainBuilder.stages.step doubling)
      (mainBuilder.stages.start doubling Bool) (crossing.take 5) = some s ∧
      s.thread true ≠ none := ⟨_, rfl, Option.some_ne_none _⟩
  exact ⟨s, hs, (concurrent_finish doubling mainBuilder.stages hs).1 ⟨true, hin⟩⟩

/-! An action that calls the head of its own pipeline, with a mutex whose `lock()` waits where the
thread holds it already. A `std::mutex` need not: that is undefined, and some throw. -/

/-- What the action calls on the head when it is called itself. -/
def Pipeline.answer {β γ : Type} (again : β → Option γ) {α : Type} (p : Pipeline α β) (k : ℕ)
    (op : Op (p.item k)) : Option γ :=
  match p, k, op with
  | .nil, 0, .push item => again item
  | .nil, 0, .reset => none
  | .nil, _ + 1, _ => none
  | .cons _ _, 0, _ => none
  | .cons _ p, k + 1, op => p.answer again k op

def Pipeline.reentrant (g : Growth) (p : Pipeline α ω) (again : ω → Option (Op α)) : Net ℕ where
  Call k := Op (p.item k)
  Cell := p.Cell
  guarded := p.guarded
  accept k c op :=
    let r := p.accept g k c op
    (r.1, r.2.or ((p.answer again k op).map fun op => ⟨0, op⟩))
  finish := p.finish

lemma Pipeline.reentrant_next (g : Growth) (p : Pipeline α ω) (again : ω → Option (Op α))
    {f' f : Frame (p.reentrant g again)} (h : Calls f' f) :
    (f'.1 = f.1 + 1 ∧ f.1 < p.length) ∨ f'.1 = 0 := by
  obtain ⟨c, hc⟩ := h
  rcases Option.or_eq_some_iff.mp hc with hnext | ⟨-, hagain⟩
  · exact .inl (p.accept_next g hnext)
  · obtain ⟨op, -, rfl⟩ := Option.map_eq_some_iff.mp hagain
    exact .inr rfl

lemma Pipeline.guarded_lt {β : Type} (p : Pipeline α β) {k : ℕ} (h : p.guarded k = true) :
    k < p.length := by
  induction p generalizing k with
  | nil => cases h
  | cons s p ih =>
    cases k with
    | zero => exact Nat.succ_pos _
    | succ k => exact Nat.succ_lt_succ (ih h)

/-- An action that calls back into its own pipeline, where the call gets to a `Buffer` or a
`Window`: as far as a thread waits for a lock of its own, it does so from then on, and no other
thread ever gets past it. -/
theorem reentry_stuck (g : Growth) (p : Pipeline α ω) (again : ω → Option (Op α))
    {s : State (p.reentrant g again) T} (hs : Idle s)
    {es es' : List (Event (p.reentrant g again) T)} (hhead : ∀ t f, .call t f ∈ es → f.1 = 0)
    {s' s'' : State (p.reentrant g again) T} (h : run Monitors.step s es = some s')
    (h' : run Monitors.step s' es' = some s'') {t : T} {a : Active (p.reentrant g again)}
    (ht : s'.thread t = some a) (hwaits : a.point = .enter) (hlock : p.guarded a.top.1 = true)
    (hcall : ∃ f ∈ a.stack, f.1 = p.length) :
    s''.thread t = some a ∧
      ∀ u c, s''.thread u = some c → u ≠ t → ∀ f ∈ c.held, f.1 ≠ a.top.1 := by
  have hkept := kept_run (kept_idle hs) h
  have hchain := hkept.chain t a ht
  have hentry : a.entry.1 = 0 := hhead t _ (entry_run h hs ht)
  have hnext : ∀ f' f : Frame (p.reentrant g again), Calls f' f → f'.1 = f.1 + 1 ∨ f'.1 = 0 := by
    intro f' f hf
    rcases p.reentrant_next g again hf with hf | hf
    · exact .inl hf.1
    · exact .inr hf
  -- the call that the action makes is on top of a frame for every place of the pipeline
  obtain ⟨f, hf, hlength⟩ := hcall
  obtain ⟨above, below, hsplit⟩ := List.append_of_mem hf
  have hstack : a.top :: a.stack = (a.top :: above) ++ f :: below := by rw [hsplit]; rfl
  have hsuffix : (f :: below).IsChain Calls := by
    rw [hstack] at hchain
    exact (List.isChain_append.mp hchain).2.1
  have hlast : ((f :: below).getLast (by simp)).1 = 0 := by
    rw [← hentry, Active.entry, List.getLast_congr _ (by simp) hstack,
      List.getLast_append_of_ne_nil _ (by simp)]
  have htop : a.top.1 ≤ p.length := (p.guarded_lt hlock).le
  obtain ⟨f', hf', hplace⟩ := exists_place hnext hsuffix hlast (hlength ▸ htop)
  have hheld : f' ∈ a.held := by
    rw [Active.held, hwaits]
    dsimp only
    rw [hsplit]
    exact List.mem_append_right _ hf'
  have hown := hkept.owns t a ht f' hheld (show p.guarded f'.1 = true by rwa [hplace])
  rw [hplace] at hown
  have hstuck := stuck_run hkept ⟨ht, hwaits, hown⟩ h'
  have hkept' := kept_run hkept h'
  refine ⟨hstuck.thread, fun u c hu hut f₁ hf₁ heq => ?_⟩
  have hother := hkept'.owns u c hu f₁ hf₁ (show p.guarded f₁.1 = true by rwa [heq])
  rw [heq, hstuck.owner] at hother
  exact hut (Option.some.inj hother).symm

/-- `buffer(1)` in front of an action that pushes again. -/
def echoing : Pipeline ℕ (List ℕ) := .cons (.buffer 1) .nil

def echo : Net ℕ := echoing.reentrant doubling fun _ => some (.push 7)

def echoPush (n : ℕ) : Frame echo := ⟨0, (.push n : Op ℕ)⟩

def echoStart : State echo Bool := ⟨echoing.fresh, fun _ => none, fun _ => none⟩

def echoRun : List (Event echo Bool) :=
  [.call true (echoPush 1), .advance true, .advance true, .advance true, .advance true]

theorem reentry_stuck_echo :
    ∃ s' s'' a, run Monitors.step echoStart echoRun = some s' ∧
      run Monitors.step s' [.call false (echoPush 2)] = some s'' ∧ s''.thread true = some a ∧
      ∀ u c, s''.thread u = some c → u ≠ true → ∀ f ∈ c.held, f.1 ≠ a.top.1 := by
  obtain ⟨s', hs'⟩ : ∃ s', run Monitors.step echoStart echoRun = some s' := ⟨_, rfl⟩
  have hthread : s'.thread true =
      some ⟨.enter, echoPush 7, [⟨1, (.push [1] : Op (List ℕ))⟩, echoPush 1]⟩ := by
    obtain rfl := Option.some.inj hs'
    rfl
  obtain ⟨s'', hs''⟩ : ∃ s'', run Monitors.step s' [.call false (echoPush 2)] = some s'' := by
    obtain rfl := Option.some.inj hs'
    exact ⟨_, rfl⟩
  have hhead : ∀ t f, .call t f ∈ echoRun → f.1 = 0 := by
    intro t f hf
    simp only [echoRun, List.mem_cons, Event.call.injEq, reduceCtorEq, List.not_mem_nil,
      or_false] at hf
    rw [hf.2]
    rfl
  exact ⟨s', s'', _, hs', hs'', reentry_stuck doubling echoing (fun _ => some (.push 7))
    ⟨fun _ => rfl, fun _ => rfl⟩ hhead hs' hs'' hthread rfl rfl ⟨_, List.mem_cons_self, rfl⟩⟩

end CppMisc.Stream
