import CppMisc.Monitors

/-! Every run of a net of monitors has a serial order: each call takes effect at the one step
at which it has been through all of its bodies and not released a lock yet, as if it ran alone
from its start to its end at that point. -/
namespace CppMisc.Monitors
open Runs

variable {L : Type} {M : Net L} {T : Type}

/-- What the thread is in when its call takes effect in this step. -/
def commit (s : State M T) : Event M T → Option (T × Frame M)
  | .call _ _ => none
  | .advance t => (s.thread t).bind fun a =>
      if a.point = .body ∧ (M.accept a.top.1 (s.cell a.top.1) a.top.2).2.isNone then
        some (t, a.entry)
      else none

/-- How a thread got into the call on top, if every body finds the cell of the memory. -/
inductive Path (m : Memory M) : Frame M → List (Frame M) → Prop
  | nil (f : Frame M) : Path m f []
  | cons {f g : Frame M} {fs : List (Frame M)} (h : (M.accept f.1 (m f.1) f.2).2 = some g)
      (hf : Path m f fs) : Path m g (f :: fs)

/-- A body that has run up to its call and the one that has yet to run the rest. -/
def Taken (m cell : Memory M) (f : Frame M) : Prop :=
  M.guarded f.1 = true → cell f.1 = (M.accept f.1 (m f.1) f.2).1

def Owing (m cell : Memory M) (f : Frame M) : Prop :=
  M.guarded f.1 = true → m f.1 = M.finish f.1 (cell f.1) f.2

def Same (m cell : Memory M) (f : Frame M) : Prop :=
  M.guarded f.1 = true → cell f.1 = m f.1

/-- The cells under the locks of a thread, against a memory in which its call has not taken
effect yet, or has taken effect to its end. -/
def Active.Agrees (m cell : Memory M) (a : Active M) : Prop :=
  match a.point with
  | .enter => Path m a.top a.stack ∧ ∀ f ∈ a.stack, Taken m cell f
  | .body => Path m a.top a.stack ∧ Same m cell a.top ∧ ∀ f ∈ a.stack, Taken m cell f
  | .back => Owing m cell a.top ∧ ∀ f ∈ a.stack, Owing m cell f
  | .leave => Same m cell a.top ∧ ∀ f ∈ a.stack, Owing m cell f

/-- The memory that the calls which have taken effect leave behind. -/
structure Sim (s : State M T) (m : Memory M) : Prop where
  free : ∀ l, s.owner l = none → s.cell l = m l
  agrees : ∀ t a, s.thread t = some a → a.Agrees m s.cell

lemma sim_idle {s : State M T} (h : Idle s) : Sim s s.cell where
  free l _ := rfl
  agrees t a ht := by rw [h.thread t] at ht; cases ht

lemma Path.congr (hM : Lockless M) {m m' : Memory M} {f : Frame M} {fs : List (Frame M)}
    (h : Path m f fs) (heq : ∀ g ∈ fs, M.guarded g.1 = true → m g.1 = m' g.1) : Path m' f fs := by
  induction h with
  | nil f => exact .nil f
  | @cons f g fs hfg hf ih =>
    refine .cons ?_ (ih fun g hg => heq g (List.mem_cons_of_mem _ hg))
    cases hguard : M.guarded f.1 with
    | true => rw [← heq f List.mem_cons_self hguard, hfg]
    | false => rw [hM.route f.1 (m' f.1) (m f.1) f.2 hguard, hfg]

/-- A thread only looks at the cells under the locks that it holds. -/
lemma Active.Agrees.congr (hM : Lockless M) {m cell m' cell' : Memory M} {a : Active M}
    (h : a.Agrees m cell)
    (heq : ∀ f ∈ a.held, M.guarded f.1 = true → m f.1 = m' f.1 ∧ cell f.1 = cell' f.1) :
    a.Agrees m' cell' := by
  have htaken : ∀ f ∈ a.held, Taken m cell f → Taken m' cell' f := by
    intro f hf ht hg
    rw [← (heq f hf hg).1, ← (heq f hf hg).2]
    exact ht hg
  have howing : ∀ f ∈ a.held, Owing m cell f → Owing m' cell' f := by
    intro f hf ht hg
    rw [← (heq f hf hg).1, ← (heq f hf hg).2]
    exact ht hg
  have hsame : ∀ f ∈ a.held, Same m cell f → Same m' cell' f := by
    intro f hf ht hg
    rw [← (heq f hf hg).1, ← (heq f hf hg).2]
    exact ht hg
  obtain ⟨point, top, stack⟩ := a
  cases point with
  | enter =>
    exact ⟨h.1.congr hM fun f hf hg => (heq f hf hg).1, fun f hf => htaken f hf (h.2 f hf)⟩
  | body =>
    have hin : ∀ f ∈ stack, f ∈ top :: stack := fun f hf => List.mem_cons_of_mem _ hf
    exact ⟨h.1.congr hM fun f hf hg => (heq f (hin f hf) hg).1,
      hsame top List.mem_cons_self h.2.1, fun f hf => htaken f (hin f hf) (h.2.2 f hf)⟩
  | back =>
    exact ⟨howing top List.mem_cons_self h.1,
      fun f hf => howing f (List.mem_cons_of_mem _ hf) (h.2 f hf)⟩
  | leave =>
    exact ⟨hsame top List.mem_cons_self h.1,
      fun f hf => howing f (List.mem_cons_of_mem _ hf) (h.2 f hf)⟩

lemma Path.made {m : Memory M} {f : Frame M} {fs : List (Frame M)} (h : Path m f fs) :
    ∀ g ∈ fs, (M.accept g.1 (m g.1) g.2).2 ≠ none := by
  induction h with
  | nil f => simp
  | cons hfg _ ih => exact List.forall_mem_cons.mpr ⟨by simp [hfg], ih⟩

/-- A place without a lock has no owner. -/
lemma Kept.owner_none {s : State M T} (hk : Kept s) {l : L} (h : ¬ M.guarded l = true) :
    s.owner l = none := by
  cases ho : s.owner l with
  | none => rfl
  | some t => exact absurd (hk.owned l t ho).1 h

lemma Kept.not_top {s : State M T} (hk : Kept s) {t u : T} {a : Active M}
    (ht : s.thread t = some a) (hp : a.point ≠ .enter) (hu : u ≠ t) {l : L}
    (hl : s.owner l = some u) : ∀ f ∈ a.top :: a.stack, f.1 ≠ l := by
  rintro f hf rfl
  have hheld : a.held = a.top :: a.stack := by
    cases hpoint : a.point <;> simp_all [Active.held]
  have hown := hk.owns t a ht f (hheld ▸ hf) (hk.owned _ u hl).1
  exact hu (Option.some.inj (hl.symm.trans hown))

/-- The call that the thread is in and that has not taken effect. -/
def waiting (s : State M T) (t : T) : List (Frame M) :=
  match s.thread t with
  | none => []
  | some a => if a.point = .enter ∨ a.point = .body then [a.entry] else []

lemma Idle.waiting {s : State M T} (h : Idle s) (t : T) : waiting s t = [] := by
  rw [Monitors.waiting, h.thread t]

section

variable [DecidableEq T]

/-- What a thread has called and what has taken effect of it. -/
def callsOf (t : T) (es : List (Event M T)) : List (Frame M) :=
  es.filterMap fun
    | .call u f => if u = t then some f else none
    | .advance _ => none

def effectsOf (t : T) (ops : List (T × Frame M)) : List (Frame M) :=
  ops.filterMap fun op => if op.1 = t then some op.2 else none

lemma effectsOf_append (t : T) (ops ops' : List (T × Frame M)) :
    effectsOf t (ops ++ ops') = effectsOf t ops ++ effectsOf t ops' := List.filterMap_append

lemma callsOf_cons (t : T) (e : Event M T) (es : List (Event M T)) :
    callsOf t (e :: es) = callsOf t [e] ++ callsOf t es :=
  List.filterMap_append (l := [e])

/-- What is left to check where one thread moves on and the cells of the others stay. -/
lemma Sim.update (hM : Lockless M) {s : State M T} (hk : Kept s) {m : Memory M} (hs : Sim s m)
    {t : T} {o : Option (Active M)} {m' cell' : Memory M} {owner' : L → Option T}
    (hothers : ∀ l u, u ≠ t → s.owner l = some u → m l = m' l ∧ s.cell l = cell' l)
    (hfree : ∀ l, owner' l = none → cell' l = m' l)
    (hagrees : ∀ a, o = some a → a.Agrees m' cell') :
    Sim (⟨cell', owner', Function.update s.thread t o⟩ : State M T) m' where
  free := hfree
  agrees u b hb := by
    rcases thread_update hb with ⟨-, ho⟩ | ⟨hu, hb⟩
    · exact hagrees b ho
    · exact (hs.agrees u b hb).congr hM fun f hf hg => hothers _ u hu (hk.owns u b hb f hf hg)

end

variable [DecidableEq L]

/-- A call does not touch the cells below its place, whatever is in them. -/
lemma Exec.untouched (H : Hierarchy M) {m m' : Memory M} {f : Frame M} (h : Exec m f m') {l : L}
    (hl : H.rank l < H.rank f.1) (c : M.Cell l) :
    m' l = m l ∧ Exec (Function.update m l c) f (Function.update m' l c) := by
  induction h with
  | @last m f hnone =>
    have hne : f.1 ≠ l := by rintro rfl; exact hl.false
    refine ⟨Function.update_of_ne hne.symm .., ?_⟩
    rw [Function.update_comm hne]
    have hread : Function.update m l c f.1 = m f.1 := Function.update_of_ne hne ..
    have hexec := Exec.last (m := Function.update m l c) (f := f) (by rw [hread, hnone])
    rwa [hread] at hexec
  | @inner m m' f g hsome hg ih =>
    have hne : f.1 ≠ l := by rintro rfl; exact hl.false
    obtain ⟨hsame, hexec⟩ := ih (hl.trans (H.rank_lt _ _ _ _ hsome))
    rw [Function.update_of_ne hne.symm] at hsame
    refine ⟨(Function.update_of_ne hne.symm ..).trans hsame, ?_⟩
    have hread : Function.update m l c f.1 = m f.1 := Function.update_of_ne hne ..
    rw [Function.update_comm hne] at hexec
    rw [Function.update_comm hne]
    have hread' : Function.update m' l c f.1 = m' f.1 := Function.update_of_ne hne ..
    have hcall := Exec.inner (m := Function.update m l c) (f := f) (g := g)
      (by rw [hread, hsome]) (by rw [hread]; exact hexec)
    rwa [hread'] at hcall

/-- A call on top of a path, run to its end, is the call at its start run to its end. -/
lemma Path.exec (H : Hierarchy M) {m m₁ : Memory M} {f : Frame M} {fs : List (Frame M)}
    (h : Path m f fs) (hchain : (f :: fs).IsChain Calls) (hf : Exec m f m₁) :
    ∃ m', Exec m ((f :: fs).getLast (by simp)) m' ∧
      (∀ g ∈ fs, m' g.1 = M.finish g.1 (M.accept g.1 (m g.1) g.2).1 g.2) ∧
      ∀ l, (∀ g ∈ fs, g.1 ≠ l) → m' l = m₁ l := by
  induction h generalizing m₁ with
  | nil f => exact ⟨m₁, hf, by simp, fun l _ => rfl⟩
  | @cons f g fs hfg hpath ih =>
    have hlt := H.rank_lt _ _ _ _ hfg
    obtain ⟨-, hexec⟩ := hf.untouched H hlt (M.accept f.1 (m f.1) f.2).1
    have hcall := Exec.inner hfg hexec
    rw [Function.update_self, Function.update_idem] at hcall
    obtain ⟨m', hm', hstack, hrest⟩ := ih hchain.tail hcall
    have hne : ∀ k ∈ fs, k.1 ≠ f.1 := fun k hk => H.ne_top hchain.tail hk
    refine ⟨m', by rwa [List.getLast_cons (by simp)], ?_, ?_⟩
    · intro k hk
      rcases List.mem_cons.mp hk with rfl | hk
      · rw [hrest k.1 hne, Function.update_self]
      · exact hstack k hk
    · intro l hl
      have hlf : f.1 ≠ l := hl f List.mem_cons_self
      rw [hrest l fun k hk => hl k (List.mem_cons_of_mem _ hk), Function.update_of_ne hlf.symm]

variable [DecidableEq T]

lemma sim_call (hM : Lockless M) {s s' : State M T} (hk : Kept s) {m : Memory M} (hs : Sim s m)
    {t : T} {f : Frame M} (h : step s (.call t f) = some s') : Sim s' m := by
  simp only [step, Option.isNone_iff_eq_none] at h
  split_ifs at h with ht
  obtain rfl := Option.some.inj h
  refine hs.update hM hk (fun _ _ _ _ => ⟨rfl, rfl⟩) hs.free ?_
  rintro _ ⟨⟩
  exact ⟨.nil f, fun g hg => absurd hg (List.not_mem_nil)⟩

lemma sim_lock (hM : Lockless M) {s s' : State M T} (hk : Kept s) {m : Memory M} (hs : Sim s m)
    {t : T} {a : Active M} (ht : s.thread t = some a) (hp : a.point = .enter)
    (h : lock s t a = some s') : Sim s' m := by
  have hagrees := hs.agrees t a ht
  simp only [Active.Agrees, hp] at hagrees
  unfold lock at h
  dsimp only at h
  split_ifs at h with hg hfree
  · obtain rfl := Option.some.inj h
    refine hs.update hM hk (fun _ _ _ _ => ⟨rfl, rfl⟩) ?_ ?_
    · intro l hl
      by_cases hla : l = a.top.1
      · rw [hla, Function.update_self] at hl
        cases hl
      · rw [Function.update_of_ne hla] at hl
        exact hs.free l hl
    · rintro _ ⟨⟩
      exact ⟨hagrees.1, fun _ => hs.free _ hfree, hagrees.2⟩
  · obtain rfl := Option.some.inj h
    refine hs.update hM hk (fun _ _ _ _ => ⟨rfl, rfl⟩) hs.free ?_
    rintro _ ⟨⟩
    exact ⟨hagrees.1, fun _ => hs.free _ (hk.owner_none hg), hagrees.2⟩

/-- The body of a call before it makes a call of its own. -/
lemma sim_body_call (H : Hierarchy M) (hM : Lockless M) {s : State M T} (hk : Kept s) {m : Memory M}
    (hs : Sim s m) {t : T} {a : Active M} (ht : s.thread t = some a) (hp : a.point = .body)
    {g : Frame M} (hg : (M.accept a.top.1 (s.cell a.top.1) a.top.2).2 = some g) :
    Sim (body s t a) m := by
  obtain ⟨hpath, hsame, htaken⟩ : Path m a.top a.stack ∧ Same m s.cell a.top ∧
      ∀ f ∈ a.stack, Taken m s.cell f := by
    simpa only [Active.Agrees, hp] using hs.agrees t a ht
  have hcell : s.cell a.top.1 = m a.top.1 := by
    by_cases hguard : M.guarded a.top.1 = true
    · exact hsame hguard
    · exact hs.free _ (hk.owner_none hguard)
  refine hs.update hM hk ?_ ?_ ?_
  · intro l u hu hl
    have hne := hk.not_top ht (by simp [hp]) hu hl a.top List.mem_cons_self
    exact ⟨rfl, (Function.update_of_ne hne.symm ..).symm⟩
  · intro l hl
    by_cases hla : l = a.top.1
    · subst hla
      have hguard : ¬ M.guarded a.top.1 = true := by
        intro hguard
        have hown := hk.owns t a ht a.top (by simp [Active.held, hp]) hguard
        rw [hown] at hl
        cases hl
      rw [Function.update_self, hM.pass _ _ _ (by simpa using hguard) (by simp [hg]), hcell]
    · rw [Function.update_of_ne hla]
      exact hs.free l hl
  · rw [hg]
    rintro _ ⟨⟩
    refine ⟨.cons (by rw [← hcell, hg]; rfl) hpath, List.forall_mem_cons.mpr ⟨?_, ?_⟩⟩
    · intro _
      rw [Function.update_self, hcell]
    · intro f hf hguard
      rw [Function.update_of_ne (H.ne_top (hk.chain t a ht) hf)]
      exact htaken f hf hguard

/-- The body of a call that makes none: the call that the thread came in with takes effect. -/
lemma sim_body_last (H : Hierarchy M) (hM : Lockless M) {s : State M T} (hk : Kept s) {m : Memory M}
    (hs : Sim s m) {t : T} {a : Active M} (ht : s.thread t = some a) (hp : a.point = .body)
    (hg : (M.accept a.top.1 (s.cell a.top.1) a.top.2).2 = none) :
    ∃ m', Exec m a.entry m' ∧ Sim (body s t a) m' := by
  obtain ⟨hpath, hsame, htaken⟩ : Path m a.top a.stack ∧ Same m s.cell a.top ∧
      ∀ f ∈ a.stack, Taken m s.cell f := by
    simpa only [Active.Agrees, hp] using hs.agrees t a ht
  have hcell : s.cell a.top.1 = m a.top.1 := by
    by_cases hguard : M.guarded a.top.1 = true
    · exact hsame hguard
    · exact hs.free _ (hk.owner_none hguard)
  have hchain := hk.chain t a ht
  rw [hcell] at hg
  obtain ⟨m', hexec, hstack, hrest⟩ := hpath.exec H hchain (.last hg)
  have htop : m' a.top.1 = (M.accept a.top.1 (m a.top.1) a.top.2).1 := by
    rw [hrest _ fun f hf => H.ne_top hchain hf, Function.update_self]
  refine ⟨m', hexec, hs.update hM hk ?_ ?_ ?_⟩
  · intro l u hu hl
    have hne := hk.not_top ht (by simp [hp]) hu hl
    have hla := (hne a.top List.mem_cons_self).symm
    rw [hrest l fun f hf => hne f (List.mem_cons_of_mem _ hf), Function.update_of_ne hla,
      Function.update_of_ne hla]
    exact ⟨rfl, rfl⟩
  · intro l hl
    by_cases hla : l = a.top.1
    · rw [hla, Function.update_self, htop, hcell]
    · rw [Function.update_of_ne hla]
      by_cases hin : ∃ f ∈ a.stack, f.1 = l
      · -- a body without a lock on the way has left its cell alone
        obtain ⟨f, hf, rfl⟩ := hin
        have hguard : M.guarded f.1 = false := by
          by_contra hguard
          have hown := hk.owns t a ht f (by simp [Active.held, hp, hf]) (by simpa using hguard)
          rw [hown] at hl
          cases hl
        rw [hstack f hf, hM.finish _ _ _ hguard, hM.pass _ _ _ hguard (hpath.made f hf)]
        exact hs.free _ hl
      · rw [hrest l fun f hf hfl => hin ⟨f, hf, hfl⟩, Function.update_of_ne hla]
        exact hs.free l hl
  · rw [hcell, hg]
    rintro _ ⟨⟩
    refine ⟨fun _ => ?_, fun f hf hguard => ?_⟩
    · exact (Function.update_self ..).trans htop.symm
    · rw [hstack f hf, Function.update_of_ne (H.ne_top hchain hf), htaken f hf hguard]

lemma sim_back (H : Hierarchy M) (hM : Lockless M) {s : State M T} (hk : Kept s) {m : Memory M}
    (hs : Sim s m) {t : T} {a : Active M} (ht : s.thread t = some a) (hp : a.point = .back) :
    Sim (back s t a) m := by
  obtain ⟨htop, hstack⟩ : Owing m s.cell a.top ∧ ∀ f ∈ a.stack, Owing m s.cell f := by
    simpa only [Active.Agrees, hp] using hs.agrees t a ht
  refine hs.update hM hk ?_ ?_ ?_
  · intro l u hu hl
    have hne := hk.not_top ht (by simp [hp]) hu hl a.top List.mem_cons_self
    exact ⟨rfl, (Function.update_of_ne hne.symm ..).symm⟩
  · intro l hl
    by_cases hla : l = a.top.1
    · subst hla
      have hguard : M.guarded a.top.1 = false := by
        by_contra hguard
        have hown := hk.owns t a ht a.top (by simp [Active.held, hp]) (by simpa using hguard)
        rw [hown] at hl
        cases hl
      rw [Function.update_self, hM.finish _ _ _ hguard]
      exact hs.free _ hl
    · rw [Function.update_of_ne hla]
      exact hs.free l hl
  · rintro _ ⟨⟩
    refine ⟨fun hguard => ?_, fun f hf hguard => ?_⟩
    · rw [Function.update_self, htop hguard]
    · rw [Function.update_of_ne (H.ne_top (hk.chain t a ht) hf)]
      exact hstack f hf hguard

lemma sim_unlock (hM : Lockless M) {s : State M T} (hk : Kept s) {m : Memory M} (hs : Sim s m)
    {t : T} {a : Active M} (ht : s.thread t = some a) (hp : a.point = .leave) :
    Sim (unlock s t a) m := by
  obtain ⟨htop, hstack⟩ : Same m s.cell a.top ∧ ∀ f ∈ a.stack, Owing m s.cell f := by
    simpa only [Active.Agrees, hp] using hs.agrees t a ht
  refine hs.update hM hk (fun _ _ _ _ => ⟨rfl, rfl⟩) ?_ ?_
  · intro l hl
    split_ifs at hl with hguard
    · by_cases hla : l = a.top.1
      · rw [hla]
        exact htop hguard
      · rw [Function.update_of_ne hla] at hl
        exact hs.free l hl
    · exact hs.free l hl
  · intro b hb
    cases hst : a.stack with
    | nil => rw [hst] at hb; cases hb
    | cons f stack =>
      rw [hst] at hb hstack
      cases hb
      exact List.forall_mem_cons.mp hstack

/-- One step: either no call takes effect in it, or the one that does runs from its start to its
end in the memory. -/
theorem sim_step (H : Hierarchy M) (hM : Lockless M) {s s' : State M T} (hk : Kept s) {m : Memory M}
    (hs : Sim s m) {e : Event M T} (h : step s e = some s') :
    ∃ m', ExecAll m ((commit s e).toList.map Prod.snd) m' ∧ Sim s' m' := by
  cases e with
  | call t f => exact ⟨m, .nil, sim_call hM hk hs h⟩
  | advance t =>
    obtain ⟨a, ht, ⟨hp, h⟩ | ⟨hp, rfl⟩ | ⟨hp, rfl⟩ | ⟨hp, rfl⟩⟩ := advance_cases h
    · exact ⟨m, by simpa [commit, ht, hp] using .nil, sim_lock hM hk hs ht hp h⟩
    · cases hg : (M.accept a.top.1 (s.cell a.top.1) a.top.2).2 with
      | some g =>
        exact ⟨m, by simpa [commit, ht, hp, hg] using .nil, sim_body_call H hM hk hs ht hp hg⟩
      | none =>
        obtain ⟨m', hexec, hs'⟩ := sim_body_last H hM hk hs ht hp hg
        exact ⟨m', by simpa [commit, ht, hp, hg] using .cons hexec .nil, hs'⟩
    · exact ⟨m, by simpa [commit, ht, hp] using .nil, sim_back H hM hk hs ht hp⟩
    · exact ⟨m, by simpa [commit, ht, hp] using .nil, sim_unlock hM hk hs ht hp⟩

/-- The calls of a run, in the order in which they take effect. -/
def order : State M T → List (Event M T) → List (T × Frame M)
  | _, [] => []
  | s, e :: es => (commit s e).toList ++ ((step s e).map fun s' => order s' es).getD []

lemma order_append {s s' : State M T} {es fs : List (Event M T)} (h : run step s es = some s') :
    order s (es ++ fs) = order s es ++ order s' fs := by
  induction es generalizing s with
  | nil => cases h; rfl
  | cons e es ih =>
    obtain ⟨t, ht, hrest⟩ := Option.bind_eq_some_iff.mp h
    simp [order, ht, ih hrest]

lemma ExecAll.append {m m' m'' : Memory M} {fs gs : List (Frame M)} (h : ExecAll m fs m')
    (hg : ExecAll m' gs m'') : ExecAll m (fs ++ gs) m'' := by
  induction h with
  | nil => exact hg
  | cons hf _ ih => exact .cons hf (ih hg)

lemma sim_run (H : Hierarchy M) (hM : Lockless M) {s s' : State M T} {es : List (Event M T)}
    (hk : Kept s) {m : Memory M} (hs : Sim s m) (h : run step s es = some s') :
    ∃ m', ExecAll m ((order s es).map Prod.snd) m' ∧ Sim s' m' := by
  induction es generalizing s m with
  | nil => cases h; exact ⟨m, .nil, hs⟩
  | cons e es ih =>
    obtain ⟨t, ht, hrest⟩ := Option.bind_eq_some_iff.mp h
    obtain ⟨m₁, hfirst, hs₁⟩ := sim_step H hM hk hs ht
    obtain ⟨m', hexec, hs'⟩ := ih (kept_step hk ht) hs₁ hrest
    refine ⟨m', ?_, hs'⟩
    rw [order, ht, List.map_append]
    exact hfirst.append hexec

lemma waiting_step {s s' : State M T} {e : Event M T} (h : step s e = some s') (t : T) :
    waiting s t ++ callsOf t [e] = effectsOf t (commit s e).toList ++ waiting s' t := by
  cases e with
  | call u f =>
    simp only [step, Option.isNone_iff_eq_none] at h
    split_ifs at h with hu
    obtain rfl := Option.some.inj h
    by_cases htu : u = t
    · subst htu
      simp [waiting, hu, callsOf, commit, effectsOf, Active.entry]
    · simp [waiting, callsOf, commit, effectsOf, htu, Function.update_of_ne (Ne.symm htu)]
  | advance u =>
    obtain ⟨a, hu, hcases⟩ := advance_cases h
    by_cases htu : t = u
    · subst htu
      rcases hcases with ⟨hp, h⟩ | ⟨hp, rfl⟩ | ⟨hp, rfl⟩ | ⟨hp, rfl⟩
      · simp [waiting, hu, thread_lock h, hp, callsOf, commit, effectsOf, Active.entry]
      · cases hg : (M.accept a.top.1 (s.cell a.top.1) a.top.2).2 with
        | some g =>
          simp [waiting, hu, hp, callsOf, commit, effectsOf, body, hg, afterBody, Active.entry]
        | none => simp [waiting, hu, hp, callsOf, commit, effectsOf, body, hg, afterBody]
      · simp [waiting, hu, hp, callsOf, commit, effectsOf, back]
      · cases hst : a.stack <;>
          simp [waiting, hu, hp, callsOf, commit, effectsOf, unlock, hst, afterUnlock]
    · have hcommit : effectsOf t (commit s (.advance u)).toList = [] := by
        cases hc : commit s (.advance u) with
        | none => rfl
        | some op =>
          simp only [commit, hu, Option.bind_some] at hc
          split_ifs at hc
          obtain rfl := Option.some.inj hc
          simp [effectsOf, Ne.symm htu]
      rw [hcommit, waiting, waiting, thread_advance h htu]
      simp [callsOf]

lemma waiting_run {s s' : State M T} {es : List (Event M T)} (h : run step s es = some s')
    (t : T) :
    waiting s t ++ callsOf t es = effectsOf t (order s es) ++ waiting s' t := by
  induction es generalizing s with
  | nil => cases h; simp [callsOf, order, effectsOf]
  | cons e es ih =>
    obtain ⟨u, hu, hrest⟩ := Option.bind_eq_some_iff.mp h
    rw [callsOf_cons, ← List.append_assoc, waiting_step hu, List.append_assoc, ih hrest, order,
      hu, effectsOf_append, List.append_assoc]
    rfl

/-- A run from a state with no call in progress: the calls take effect in an order in which
each thread's own are in the order of its calls, at most its last one missing; where no call
is in progress any more, the cells are as these calls one after the other leave them. -/
theorem run_serial (H : Hierarchy M) (hM : Lockless M) {s s' : State M T} {es : List (Event M T)}
    (hs : Idle s) (h : run step s es = some s') :
    (∀ t, callsOf t es = effectsOf t (order s es) ++ waiting s' t) ∧
      (Idle s' → ExecAll s.cell ((order s es).map Prod.snd) s'.cell) := by
  constructor
  · intro t
    have hwaiting := waiting_run h t
    rwa [hs.waiting, List.nil_append] at hwaiting
  · intro hs'
    obtain ⟨m, hexec, hsim⟩ := sim_run H hM (kept_idle hs) (sim_idle hs) h
    have hcell : s'.cell = m := funext fun l => hsim.free l (hs'.owner l)
    rwa [hcell]

end CppMisc.Monitors
