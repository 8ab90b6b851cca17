import CppMisc.Runs

/-! Monitors that call one another. Each place has a cell, and most have a lock that is held
from the start of a call there until its end, through the call that its body makes in
between. Any number of threads call in, at any place, and take their steps in any order. -/
namespace CppMisc.Monitors
open Runs

structure Net (L : Type) where
  Call : L → Type
  Cell : L → Type*
  guarded : L → Bool
  /-- The body up to the call that it makes, if it makes one. -/
  accept : (l : L) → Cell l → Call l → Cell l × Option (Sigma Call)
  /-- The rest of the body, where it has made a call. -/
  finish : (l : L) → Cell l → Call l → Cell l

variable {L : Type} (M : Net L)

abbrev Memory : Type _ := (l : L) → M.Cell l

abbrev Frame : Type := Sigma M.Call

/-- Where a thread is in the call on top of its stack: in front of the lock, past it, back from
the call that it made, or done and about to release the lock. -/
inductive Point
  | enter
  | body
  | back
  | leave
  deriving DecidableEq, Repr

structure Active where
  point : Point
  top : Frame M
  stack : List (Frame M)

structure State (T : Type) where
  cell : Memory M
  owner : L → Option T
  thread : T → Option (Active M)

inductive Event (T : Type)
  | call (t : T) (f : Frame M)
  | advance (t : T)

variable {M} {T : Type}

/-- No call is in progress. -/
structure Idle (s : State M T) : Prop where
  thread : ∀ t, s.thread t = none
  owner : ∀ l, s.owner l = none

/-- Where a body runs without a lock, the cell has no say in the call that it makes, and stays as
it is if there is one. -/
structure Lockless (M : Net L) : Prop where
  route : ∀ l s s' c, M.guarded l = false → (M.accept l s c).2 = (M.accept l s' c).2
  pass : ∀ l s c, M.guarded l = false → (M.accept l s c).2 ≠ none → (M.accept l s c).1 = s
  finish : ∀ l s c, M.guarded l = false → M.finish l s c = s

/-- Places in an order that every call goes up in. -/
structure Hierarchy (M : Net L) where
  rank : L → ℕ
  depth : ℕ
  rank_le : ∀ l, rank l ≤ depth
  rank_lt : ∀ l s c g, (M.accept l s c).2 = some g → rank l < rank g.1

/-! The call stack of a thread, and the locks that it holds. -/

def Calls (g f : Frame M) : Prop := ∃ s, (M.accept f.1 s f.2).2 = some g

def Active.held (a : Active M) : List (Frame M) :=
  match a.point with
  | .enter => a.stack
  | _ => a.top :: a.stack

/-- The call that the thread came in with. -/
def Active.entry (a : Active M) : Frame M := (a.top :: a.stack).getLast (by simp)

def Apart (fs : List (Frame M)) : Prop :=
  fs.Pairwise fun f g => M.guarded f.1 = true → f.1 ≠ g.1

structure Kept (s : State M T) : Prop where
  chain : ∀ t a, s.thread t = some a → (a.top :: a.stack).IsChain Calls
  apart : ∀ t a, s.thread t = some a → Apart a.held
  owns : ∀ t a, s.thread t = some a → ∀ f ∈ a.held, M.guarded f.1 = true → s.owner f.1 = some t
  owned : ∀ l t, s.owner l = some t →
    M.guarded l = true ∧ ∃ a, s.thread t = some a ∧ ∃ f ∈ a.held, f.1 = l

lemma kept_idle {s : State M T} (h : Idle s) : Kept s where
  chain t a ht := by rw [h.thread t] at ht; cases ht
  apart t a ht := by rw [h.thread t] at ht; cases ht
  owns t a ht := by rw [h.thread t] at ht; cases ht
  owned l t hl := by rw [h.owner l] at hl; cases hl

lemma Hierarchy.sorted (H : Hierarchy M) {fs : List (Frame M)} (h : fs.IsChain Calls) :
    fs.Pairwise fun f g => H.rank g.1 < H.rank f.1 := by
  have hlt : fs.IsChain fun f g => H.rank g.1 < H.rank f.1 :=
    h.imp fun g f ⟨s, hs⟩ => H.rank_lt _ _ _ _ hs
  have : IsTrans (Frame M) fun f g => H.rank g.1 < H.rank f.1 := ⟨fun _ _ _ h h' => h'.trans h⟩
  exact hlt.pairwise

/-- In the stack of a thread no place occurs twice. -/
lemma Hierarchy.ne_top (H : Hierarchy M) {f g : Frame M} {fs : List (Frame M)}
    (h : (f :: fs).IsChain Calls) (hg : g ∈ fs) : g.1 ≠ f.1 := by
  intro heq
  have hlt := (List.pairwise_cons.mp (H.sorted h)).1 g hg
  rw [heq] at hlt
  exact hlt.false

variable [DecidableEq T]

lemma thread_update {th : T → Option (Active M)} {t u : T} {o : Option (Active M)}
    {b : Active M} (h : Function.update th t o u = some b) :
    (u = t ∧ o = some b) ∨ (u ≠ t ∧ th u = some b) := by
  by_cases hu : u = t
  · subst hu
    rw [Function.update_self] at h
    exact .inl ⟨rfl, h⟩
  · rw [Function.update_of_ne hu] at h
    exact .inr ⟨hu, h⟩

/-- What is left to check where one thread moves on and no lock of the others changes. -/
lemma Kept.update {s : State M T} (hk : Kept s) {t : T} {o : Option (Active M)}
    {owner : L → Option T} (hothers : ∀ l u, u ≠ t → (owner l = some u ↔ s.owner l = some u))
    (hchain : ∀ a, o = some a → (a.top :: a.stack).IsChain Calls)
    (hapart : ∀ a, o = some a → Apart a.held)
    (howns : ∀ a, o = some a → ∀ f ∈ a.held, M.guarded f.1 = true → owner f.1 = some t)
    (howned : ∀ l, owner l = some t →
      M.guarded l = true ∧ ∃ a, o = some a ∧ ∃ f ∈ a.held, f.1 = l) (cell : Memory M) :
    Kept (⟨cell, owner, Function.update s.thread t o⟩ : State M T) where
  chain u b hb := by
    rcases thread_update hb with ⟨-, hb⟩ | ⟨-, hb⟩
    · exact hchain b hb
    · exact hk.chain u b hb
  apart u b hb := by
    rcases thread_update hb with ⟨-, hb⟩ | ⟨-, hb⟩
    · exact hapart b hb
    · exact hk.apart u b hb
  owns u b hb f hf hg := by
    rcases thread_update hb with ⟨rfl, ho⟩ | ⟨hu, hb⟩
    · exact howns b ho f hf hg
    · exact (hothers _ u hu).mpr (hk.owns u b hb f hf hg)
  owned l u hl := by
    by_cases hu : u = t
    · subst hu
      obtain ⟨hg, a, ho, hf⟩ := howned l hl
      exact ⟨hg, a, (Function.update_self ..).trans ho, hf⟩
    · obtain ⟨hg, a, ha, hf⟩ := hk.owned l u ((hothers l u hu).mp hl)
      exact ⟨hg, a, (Function.update_of_ne hu ..).trans ha, hf⟩

/-- A thread that moves on with the locks that it holds. -/
lemma Kept.move {s : State M T} (hk : Kept s) {t : T} {a a' : Active M}
    (ht : s.thread t = some a) (hchain : (a'.top :: a'.stack).IsChain Calls)
    (hheld : a'.held = a.held) (cell : Memory M) :
    Kept (⟨cell, s.owner, Function.update s.thread t (some a')⟩ : State M T) := by
  refine hk.update (fun _ _ _ => Iff.rfl) ?_ ?_ ?_ ?_ cell
  · rintro _ ⟨⟩
    exact hchain
  · rintro _ ⟨⟩
    exact hheld ▸ hk.apart t a ht
  · rintro _ ⟨⟩
    rw [hheld]
    exact hk.owns t a ht
  · intro l hl
    obtain ⟨hg, b, hb, f, hf, hfl⟩ := hk.owned l t hl
    obtain rfl := Option.some.inj (ht.symm.trans hb)
    exact ⟨hg, a', rfl, f, hheld ▸ hf, hfl⟩

variable [DecidableEq L]

def lock (s : State M T) (t : T) (a : Active M) : Option (State M T) :=
  let entered := Function.update s.thread t (some { a with point := .body })
  if M.guarded a.top.1 then
    if s.owner a.top.1 = none then
      some ⟨s.cell, Function.update s.owner a.top.1 (some t), entered⟩
    else none
  else some ⟨s.cell, s.owner, entered⟩

def afterBody (a : Active M) : Option (Frame M) → Active M
  | some f => ⟨.enter, f, a.top :: a.stack⟩
  | none => { a with point := .leave }

def body (s : State M T) (t : T) (a : Active M) : State M T :=
  let r := M.accept a.top.1 (s.cell a.top.1) a.top.2
  ⟨Function.update s.cell a.top.1 r.1, s.owner,
    Function.update s.thread t (some (afterBody a r.2))⟩

def back (s : State M T) (t : T) (a : Active M) : State M T :=
  ⟨Function.update s.cell a.top.1 (M.finish a.top.1 (s.cell a.top.1) a.top.2), s.owner,
    Function.update s.thread t (some { a with point := .leave })⟩

def afterUnlock : List (Frame M) → Option (Active M)
  | [] => none
  | f :: stack => some ⟨.back, f, stack⟩

def unlock (s : State M T) (t : T) (a : Active M) : State M T :=
  let owner := if M.guarded a.top.1 then Function.update s.owner a.top.1 none else s.owner
  ⟨s.cell, owner, Function.update s.thread t (afterUnlock a.stack)⟩

def advance (s : State M T) (t : T) (a : Active M) : Option (State M T) :=
  match a.point with
  | .enter => lock s t a
  | .body => some (body s t a)
  | .back => some (back s t a)
  | .leave => some (unlock s t a)

/-- An idle thread may call; a thread in front of a lock waits until the lock is free, also where
it holds the lock itself. -/
def step (s : State M T) : Event M T → Option (State M T)
  | .call t f =>
      if (s.thread t).isNone then
        some { s with thread := Function.update s.thread t (some ⟨.enter, f, []⟩) }
      else none
  | .advance t => (s.thread t).bind fun a => advance s t a

/-- One call from its start to its end, alone. -/
inductive Exec : Memory M → Frame M → Memory M → Prop
  | last {m : Memory M} {f : Frame M} (h : (M.accept f.1 (m f.1) f.2).2 = none) :
      Exec m f (Function.update m f.1 (M.accept f.1 (m f.1) f.2).1)
  | inner {m m' : Memory M} {f g : Frame M} (h : (M.accept f.1 (m f.1) f.2).2 = some g)
      (hg : Exec (Function.update m f.1 (M.accept f.1 (m f.1) f.2).1) g m') :
      Exec m f (Function.update m' f.1 (M.finish f.1 (m' f.1) f.2))

/-- Calls one after the other. -/
inductive ExecAll : Memory M → List (Frame M) → Memory M → Prop
  | nil {m : Memory M} : ExecAll m [] m
  | cons {m m' m'' : Memory M} {f : Frame M} {fs : List (Frame M)} (h : Exec m f m')
      (hs : ExecAll m' fs m'') : ExecAll m (f :: fs) m''

lemma kept_call {s s' : State M T} (hk : Kept s) {t : T} {f : Frame M}
    (h : step s (.call t f) = some s') : Kept s' := by
  simp only [step, Option.isNone_iff_eq_none] at h
  split_ifs at h with ht
  obtain rfl := Option.some.inj h
  refine hk.update (fun _ _ _ => Iff.rfl) ?_ ?_ ?_ ?_ s.cell
  · rintro _ ⟨⟩
    exact List.isChain_singleton _
  · rintro _ ⟨⟩
    exact List.Pairwise.nil
  · rintro _ ⟨⟩ g hg
    cases hg
  · intro l hl
    obtain ⟨-, b, hb, -⟩ := hk.owned l t hl
    rw [ht] at hb
    cases hb

lemma kept_lock {s s' : State M T} (hk : Kept s) {t : T} {a : Active M}
    (ht : s.thread t = some a) (hp : a.point = .enter) (h : lock s t a = some s') : Kept s' := by
  have hheld : a.held = a.stack := by simp [Active.held, hp]
  unfold lock at h
  dsimp only at h
  split_ifs at h with hg hfree
  · obtain rfl := Option.some.inj h
    refine hk.update ?_ ?_ ?_ ?_ ?_ s.cell
    · intro l u hu
      by_cases hl : l = a.top.1
      · subst hl
        simp [hfree, Ne.symm hu]
      · rw [Function.update_of_ne hl]
    · rintro _ ⟨⟩
      exact hk.chain t a ht
    · rintro _ ⟨⟩
      refine List.pairwise_cons.mpr ⟨fun f hf hgt hfl => ?_, hheld ▸ hk.apart t a ht⟩
      -- a lock that the thread holds is not free
      have hown := hk.owns t a ht f (hheld ▸ hf) (hfl ▸ hgt)
      rw [← hfl, hfree] at hown
      cases hown
    · rintro _ ⟨⟩ f hf hgf
      by_cases hl : f.1 = a.top.1
      · rw [hl, Function.update_self]
      · rw [Function.update_of_ne hl]
        rcases List.mem_cons.mp hf with rfl | hf
        · exact absurd rfl hl
        · exact hk.owns t a ht f (hheld ▸ hf) hgf
    · intro l hl
      refine ⟨?_, _, rfl, ?_⟩
      all_goals by_cases hla : l = a.top.1
      · exact hla ▸ hg
      · rw [Function.update_of_ne hla] at hl
        exact (hk.owned l t hl).1
      · exact ⟨a.top, List.mem_cons_self, hla.symm⟩
      · rw [Function.update_of_ne hla] at hl
        obtain ⟨-, b, hb, f, hf, hfl⟩ := hk.owned l t hl
        obtain rfl := Option.some.inj (ht.symm.trans hb)
        exact ⟨f, List.mem_cons_of_mem _ (hheld ▸ hf), hfl⟩
  · obtain rfl := Option.some.inj h
    refine hk.update (fun _ _ _ => Iff.rfl) ?_ ?_ ?_ ?_ s.cell
    · rintro _ ⟨⟩
      exact hk.chain t a ht
    · rintro _ ⟨⟩
      exact List.pairwise_cons.mpr ⟨fun f _ hgt => absurd hgt hg, hheld ▸ hk.apart t a ht⟩
    · rintro _ ⟨⟩ f hf hgf
      rcases List.mem_cons.mp hf with rfl | hf
      · exact absurd hgf hg
      · exact hk.owns t a ht f (hheld ▸ hf) hgf
    · intro l hl
      obtain ⟨hgl, b, hb, f, hf, hfl⟩ := hk.owned l t hl
      obtain rfl := Option.some.inj (ht.symm.trans hb)
      exact ⟨hgl, _, rfl, f, List.mem_cons_of_mem _ (hheld ▸ hf), hfl⟩

lemma kept_body {s : State M T} (hk : Kept s) {t : T} {a : Active M}
    (ht : s.thread t = some a) (hp : a.point = .body) : Kept (body s t a) := by
  have hchain := hk.chain t a ht
  refine hk.move ht ?_ ?_ _
  · cases hr : (M.accept a.top.1 (s.cell a.top.1) a.top.2).2 with
    | none => exact hchain
    | some f => exact List.isChain_cons_cons.mpr ⟨⟨_, hr⟩, hchain⟩
  · cases hr : (M.accept a.top.1 (s.cell a.top.1) a.top.2).2 with
    | none => simp [afterBody, Active.held, hp]
    | some f => simp [afterBody, Active.held, hp]

lemma kept_back {s : State M T} (hk : Kept s) {t : T} {a : Active M}
    (ht : s.thread t = some a) (hp : a.point = .back) : Kept (back s t a) := by
  refine hk.move ht ?_ ?_ _
  · exact hk.chain t a ht
  · simp [Active.held, hp]

lemma kept_unlock {s : State M T} (hk : Kept s) {t : T} {a : Active M}
    (ht : s.thread t = some a) (hp : a.point = .leave) : Kept (unlock s t a) := by
  have hchain := hk.chain t a ht
  have hheld : a.held = a.top :: a.stack := by simp [Active.held, hp]
  have hafter : ∀ b, afterUnlock a.stack = some b → b.held = a.stack ∧
      b.top :: b.stack = a.stack := by
    intro b hb
    cases hs : a.stack with
    | nil => rw [hs] at hb; cases hb
    | cons f stack => rw [hs] at hb; cases hb; exact ⟨rfl, rfl⟩
  have hapart := hk.apart t a ht
  rw [hheld] at hapart
  refine hk.update ?_ ?_ ?_ ?_ ?_ s.cell
  · intro l u hu
    split_ifs with hg
    · by_cases hl : l = a.top.1
      · have hown := hk.owns t a ht a.top (hheld ▸ List.mem_cons_self) hg
        subst hl
        simp [hown, Ne.symm hu]
      · rw [Function.update_of_ne hl]
    · rfl
  · intro b hb
    rw [(hafter b hb).2]
    exact hchain.tail
  · intro b hb
    rw [(hafter b hb).1]
    exact (List.pairwise_cons.mp hapart).2
  · intro b hb f hf hgf
    rw [(hafter b hb).1] at hf
    have hown := hk.owns t a ht f (hheld ▸ List.mem_cons_of_mem _ hf) hgf
    split_ifs with hg
    · rw [Function.update_of_ne ((List.pairwise_cons.mp hapart).1 f hf hg).symm, hown]
    · exact hown
  · intro l hl
    have hold : l ≠ a.top.1 ∧ s.owner l = some t := by
      by_cases hla : l = a.top.1
      · split_ifs at hl with hg
        · rw [hla, Function.update_self] at hl
          cases hl
        · exact absurd (hla ▸ (hk.owned l t hl).1) hg
      · refine ⟨hla, ?_⟩
        split_ifs at hl
        · rwa [Function.update_of_ne hla] at hl
        · exact hl
    obtain ⟨hgl, b, hb, f, hf, hfl⟩ := hk.owned l t hold.2
    obtain rfl := Option.some.inj (ht.symm.trans hb)
    rw [hheld] at hf
    rcases List.mem_cons.mp hf with rfl | hf
    · exact absurd hfl.symm hold.1
    · cases hs : a.stack with
      | nil => rw [hs] at hf; cases hf
      | cons g stack =>
        rw [hs] at hf
        exact ⟨hgl, _, rfl, f, hf, hfl⟩

lemma advance_cases {s s' : State M T} {t : T} (h : step s (.advance t) = some s') :
    ∃ a, s.thread t = some a ∧
      ((a.point = .enter ∧ lock s t a = some s') ∨ (a.point = .body ∧ s' = body s t a) ∨
        (a.point = .back ∧ s' = back s t a) ∨ (a.point = .leave ∧ s' = unlock s t a)) := by
  obtain ⟨a, ha, hstep⟩ := Option.bind_eq_some_iff.mp h
  refine ⟨a, ha, ?_⟩
  unfold advance at hstep
  cases hp : a.point <;> simp only [hp] at hstep
  · exact .inl ⟨rfl, hstep⟩
  · exact .inr (.inl ⟨rfl, (Option.some.inj hstep).symm⟩)
  · exact .inr (.inr (.inl ⟨rfl, (Option.some.inj hstep).symm⟩))
  · exact .inr (.inr (.inr ⟨rfl, (Option.some.inj hstep).symm⟩))

lemma kept_step {s s' : State M T} (hk : Kept s) {e : Event M T}
    (h : step s e = some s') : Kept s' := by
  cases e with
  | call t f => exact kept_call hk h
  | advance t =>
    obtain ⟨a, ht, ⟨hp, h⟩ | ⟨hp, rfl⟩ | ⟨hp, rfl⟩ | ⟨hp, rfl⟩⟩ := advance_cases h
    · exact kept_lock hk ht hp h
    · exact kept_body hk ht hp
    · exact kept_back hk ht hp
    · exact kept_unlock hk ht hp

lemma kept_run {s s' : State M T} {es : List (Event M T)} (hk : Kept s)
    (h : run step s es = some s') : Kept s' :=
  run_invariant (I := Kept) (fun _ _ _ hi he => kept_step hi he) h hk

lemma thread_advance {s s' : State M T} {t : T} (h : step s (.advance t) = some s') {u : T}
    (hu : u ≠ t) : s'.thread u = s.thread u := by
  obtain ⟨a, -, ⟨-, h⟩ | ⟨-, rfl⟩ | ⟨-, rfl⟩ | ⟨-, rfl⟩⟩ := advance_cases h
  · unfold lock at h
    dsimp only at h
    split_ifs at h <;> obtain rfl := Option.some.inj h
    all_goals exact Function.update_of_ne hu ..
  all_goals exact Function.update_of_ne hu ..

lemma thread_lock {s s' : State M T} {t : T} {a : Active M} (h : lock s t a = some s') :
    s'.thread t = some { a with point := .body } := by
  unfold lock at h
  dsimp only at h
  split_ifs at h <;> obtain rfl := Option.some.inj h
  all_goals exact Function.update_self ..

@[simp] lemma body_thread (s : State M T) (t : T) (a : Active M) : (body s t a).thread t =
    some (afterBody a (M.accept a.top.1 (s.cell a.top.1) a.top.2).2) := Function.update_self ..

@[simp] lemma back_thread (s : State M T) (t : T) (a : Active M) :
    (back s t a).thread t = some { a with point := .leave } := Function.update_self ..

@[simp] lemma unlock_thread (s : State M T) (t : T) (a : Active M) :
    (unlock s t a).thread t = afterUnlock a.stack := Function.update_self ..

lemma entry_step {s s' : State M T} {e : Event M T} (h : step s e = some s') {t : T}
    {a' : Active M} (ht : s'.thread t = some a') :
    e = .call t a'.entry ∨ ∃ a, s.thread t = some a ∧ a.entry = a'.entry := by
  cases e with
  | call u f =>
    simp only [step, Option.isNone_iff_eq_none] at h
    split_ifs at h
    obtain rfl := Option.some.inj h
    rcases thread_update ht with ⟨rfl, ha'⟩ | ⟨-, ha'⟩
    · obtain rfl := Option.some.inj ha'
      exact .inl rfl
    · exact .inr ⟨a', ha', rfl⟩
  | advance u =>
    right
    by_cases htu : t = u
    · subst htu
      obtain ⟨a, ha, ⟨-, h⟩ | ⟨-, rfl⟩ | ⟨-, rfl⟩ | ⟨-, rfl⟩⟩ := advance_cases h
      · obtain rfl := Option.some.inj ((thread_lock h).symm.trans ht)
        exact ⟨a, ha, rfl⟩
      · rw [body_thread] at ht
        obtain rfl := Option.some.inj ht
        refine ⟨a, ha, ?_⟩
        cases (M.accept a.top.1 (s.cell a.top.1) a.top.2).2 <;> rfl
      · rw [back_thread] at ht
        obtain rfl := Option.some.inj ht
        exact ⟨a, ha, rfl⟩
      · rw [unlock_thread] at ht
        refine ⟨a, ha, ?_⟩
        obtain ⟨point, top, stack⟩ := a
        cases stack with
        | nil => cases ht
        | cons f stack => cases ht; rfl
    · exact ⟨a', (thread_advance h htu).symm.trans ht, rfl⟩

/-- A thread that is in a call has made it in the run. -/
lemma entry_run {s s' : State M T} {es : List (Event M T)} (h : run step s es = some s')
    (hs : Idle s) {t : T} {a : Active M} (ht : s'.thread t = some a) : .call t a.entry ∈ es := by
  induction es using List.reverseRecOn generalizing s' a with
  | nil =>
    cases h
    rw [hs.thread t] at ht
    cases ht
  | append_singleton es e ih =>
    rw [run_append] at h
    obtain ⟨s₁, hs₁, hstep⟩ := Option.bind_eq_some_iff.mp h
    obtain ⟨s₂, hs₂, hnil⟩ := Option.bind_eq_some_iff.mp hstep
    cases hnil
    rcases entry_step hs₂ ht with rfl | ⟨b, hb, hentry⟩
    · simp
    · exact List.mem_append_left _ (hentry ▸ ih hs₁ hb)

/-! What the two halves of the body at a place keep, its cell keeps. -/

lemma cell_lock {s s' : State M T} {t : T} {a : Active M} (h : lock s t a = some s') :
    s'.cell = s.cell := by
  unfold lock at h
  dsimp only at h
  split_ifs at h <;> obtain rfl := Option.some.inj h
  all_goals rfl

lemma cell_step {l : L} {I : M.Cell l → Prop} (haccept : ∀ s c, I s → I (M.accept l s c).1)
    (hfinish : ∀ s c, I s → I (M.finish l s c)) {s s' : State M T} {e : Event M T}
    (h : step s e = some s') (hs : I (s.cell l)) : I (s'.cell l) := by
  cases e with
  | call t f =>
    simp only [step] at h
    split_ifs at h
    obtain rfl := Option.some.inj h
    exact hs
  | advance t =>
    obtain ⟨a, -, ⟨-, h⟩ | ⟨-, rfl⟩ | ⟨-, rfl⟩ | ⟨-, rfl⟩⟩ := advance_cases h
    · rw [cell_lock h]
      exact hs
    · unfold body
      dsimp only
      by_cases hl : l = a.top.1
      · subst hl
        rw [Function.update_self]
        exact haccept _ _ hs
      · rwa [Function.update_of_ne hl]
    · unfold back
      dsimp only
      by_cases hl : l = a.top.1
      · subst hl
        rw [Function.update_self]
        exact hfinish _ _ hs
      · rwa [Function.update_of_ne hl]
    · exact hs

lemma cell_run {l : L} {I : M.Cell l → Prop} (haccept : ∀ s c, I s → I (M.accept l s c).1)
    (hfinish : ∀ s c, I s → I (M.finish l s c)) {s s' : State M T} {es : List (Event M T)}
    (h : run step s es = some s') (hs : I (s.cell l)) : I (s'.cell l) :=
  run_invariant (I := fun s => I (s.cell l))
    (fun _ _ _ hi he => cell_step haccept hfinish he hi) h hs

end CppMisc.Monitors
