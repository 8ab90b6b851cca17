import Mathlib

/-! Runs of a machine given by a partial step function: an event that is not enabled has
no successor state. Invariants, conditions on the steps that a run takes, and properties
of the states that it goes through. -/
namespace CppMisc.Runs

variable {S E : Type*}

def run (step : S → E → Option S) : S → List E → Option S
  | s, [] => some s
  | s, e :: es => (step s e).bind fun s' => run step s' es

variable {step : S → E → Option S}

@[simp] lemma run_nil (s : S) : run step s [] = some s := rfl

@[simp] lemma run_cons (s : S) (e : E) (es : List E) :
    run step s (e :: es) = (step s e).bind fun s' => run step s' es := rfl

lemma run_append (s : S) (es fs : List E) :
    run step s (es ++ fs) = (run step s es).bind fun s' => run step s' fs := by
  induction es generalizing s with
  | nil => rfl
  | cons e es ih => simp [ih, Option.bind_assoc]

lemma run_invariant_of {C : E → Prop} {I : S → Prop}
    (hstep : ∀ s e s', I s → C e → step s e = some s' → I s') {s s' : S} {es : List E}
    (hes : ∀ e ∈ es, C e) (h : run step s es = some s') (hs : I s) : I s' := by
  induction es generalizing s with
  | nil => cases h; exact hs
  | cons e es ih =>
    obtain ⟨t, ht, hrest⟩ := Option.bind_eq_some_iff.mp h
    rw [List.forall_mem_cons] at hes
    exact ih hes.2 hrest (hstep s e t hs hes.1 ht)

theorem run_invariant {I : S → Prop} (hstep : ∀ s e s', I s → step s e = some s' → I s')
    {s s' : S} {es : List E} (h : run step s es = some s') (hs : I s) : I s' :=
  run_invariant_of (C := fun _ => True) (fun s e s' hi _ hse => hstep s e s' hi hse)
    (fun _ _ => trivial) h hs

/-- Every step that the run takes meets the condition in the state it is taken from. -/
def Along (step : S → E → Option S) (C : S → E → Prop) : S → List E → Prop
  | _, [] => True
  | s, e :: es => ∀ s', step s e = some s' → C s e ∧ Along step C s' es

lemma along_and {C D : S → E → Prop} {s : S} {es : List E} :
    Along step (fun s e => C s e ∧ D s e) s es ↔ Along step C s es ∧ Along step D s es := by
  induction es generalizing s with
  | nil => simp [Along]
  | cons e es ih =>
    simp only [Along, ih]
    constructor
    · intro h
      exact ⟨fun t ht => ⟨(h t ht).1.1, (h t ht).2.1⟩, fun t ht => ⟨(h t ht).1.2, (h t ht).2.2⟩⟩
    · rintro ⟨hC, hD⟩ t ht
      exact ⟨⟨(hC t ht).1, (hD t ht).1⟩, (hC t ht).2, (hD t ht).2⟩

/-- Two conditions on a step that are the same where an invariant holds. -/
lemma along_congr {C D : S → E → Prop} {I : S → Prop}
    (hinv : ∀ s e s', I s → step s e = some s' → I s')
    (hiff : ∀ s e s', I s → step s e = some s' → (C s e ↔ D s e)) {s : S} {es : List E}
    (hs : I s) : Along step C s es ↔ Along step D s es := by
  induction es generalizing s with
  | nil => exact Iff.rfl
  | cons e es ih =>
    refine forall_congr' fun t => imp_congr_right fun ht => ?_
    rw [hiff s e t hs ht, ih (hinv s e t hs ht)]

/-- A condition on the events alone, in a run that is not stuck. -/
lemma along_iff_forall {C : E → Prop} {s s' : S} {es : List E} (h : run step s es = some s') :
    Along step (fun _ e => C e) s es ↔ ∀ e ∈ es, C e := by
  induction es generalizing s with
  | nil => simp [Along]
  | cons e es ih =>
    obtain ⟨t, ht, hrest⟩ := Option.bind_eq_some_iff.mp h
    rw [List.forall_mem_cons, ← ih hrest]
    constructor
    · intro hall
      exact hall t ht
    · intro hall u hu
      obtain rfl := Option.some.inj (ht.symm.trans hu)
      exact hall

/-- Every state that the run goes through has the property, the first one included. -/
def Throughout (step : S → E → Option S) (P : S → Prop) : S → List E → Prop
  | s, [] => P s
  | s, e :: es => P s ∧ ∀ s', step s e = some s' → Throughout step P s' es

lemma Throughout.head {P : S → Prop} {s : S} {es : List E} (h : Throughout step P s es) :
    P s := by
  cases es with
  | nil => exact h
  | cons e es => exact h.1

lemma throughout_iff_prefix {P : S → Prop} {s : S} {es : List E} :
    Throughout step P s es ↔ ∀ fs, fs <+: es → ∀ s', run step s fs = some s' → P s' := by
  induction es generalizing s with
  | nil => simp [Throughout]
  | cons e es ih =>
    simp only [Throughout, ih]
    constructor
    · rintro ⟨hs, hrest⟩ fs hfs s' hrun
      cases fs with
      | nil => cases hrun; exact hs
      | cons f fs =>
        obtain ⟨rfl, hpre⟩ := List.cons_prefix_cons.mp hfs
        obtain ⟨t, ht, htail⟩ := Option.bind_eq_some_iff.mp hrun
        exact hrest t ht fs hpre s' htail
    · intro h
      refine ⟨h [] List.nil_prefix s rfl, fun t ht fs hfs s' hrun => ?_⟩
      exact h (e :: fs) (List.cons_prefix_cons.mpr ⟨rfl, hfs⟩) s' (by simp [ht, hrun])

/-- Where the condition on a step decides the property of the next state, and keeps the
invariant that this rests on, the property holds throughout exactly along the condition. -/
lemma throughout_iff_along_of {C : S → E → Prop} {I P : S → Prop}
    (hstep : ∀ s e s', I s → P s → step s e = some s' → (P s' ↔ C s e) ∧ (C s e → I s'))
    {s : S} {es : List E} (hI : I s) (hP : P s) :
    Throughout step P s es ↔ Along step C s es := by
  induction es generalizing s with
  | nil => simp [Throughout, Along, hP]
  | cons e es ih =>
    simp only [Throughout, Along, hP, true_and]
    refine forall_congr' fun t => imp_congr_right fun ht => ?_
    obtain ⟨hP', hI'⟩ := hstep s e t hI hP ht
    constructor
    · intro h
      have hPt : P t := h.head
      have hC := hP'.mp hPt
      exact ⟨hC, (ih (hI' hC) hPt).mp h⟩
    · rintro ⟨hC, h⟩
      exact (ih (hI' hC) (hP'.mpr hC)).mpr h

/-- Where an invariant of all steps makes the property of the next state a matter of the
condition on the step, the property holds throughout exactly along the condition. -/
theorem throughout_iff_along {C : S → E → Prop} {I P : S → Prop}
    (hinv : ∀ s e s', I s → step s e = some s' → I s')
    (hstep : ∀ s e s', I s → P s → step s e = some s' → (P s' ↔ C s e))
    {s : S} {es : List E} (hI : I s) (hP : P s) :
    Throughout step P s es ↔ Along step C s es :=
  throughout_iff_along_of
    (fun s e s' hi hp h => ⟨hstep s e s' hi hp h, fun _ => hinv s e s' hi h⟩) hI hP

/-- The machine is never stuck on the events, and every state on the way has the property. -/
def Always (step : S → E → Option S) (P : S → Prop) (s : S) (es : List E) : Prop :=
  ∀ fs, fs <+: es → ∃ s', run step s fs = some s' ∧ P s'

lemma always_nil {P : S → Prop} {s : S} : Always step P s [] ↔ P s := by
  constructor
  · intro h
    obtain ⟨s', hs', hP⟩ := h [] List.nil_prefix
    obtain rfl := Option.some.inj hs'
    exact hP
  · intro hP fs hfs
    obtain rfl := List.prefix_nil.mp hfs
    exact ⟨s, rfl, hP⟩

lemma always_cons {P : S → Prop} {s : S} {e : E} {es : List E} :
    Always step P s (e :: es) ↔ P s ∧ ∃ s', step s e = some s' ∧ Always step P s' es := by
  constructor
  · intro h
    refine ⟨always_nil.mp fun fs hfs => h fs (hfs.trans List.nil_prefix), ?_⟩
    obtain ⟨s', hs', -⟩ := h [e] (List.cons_prefix_cons.mpr ⟨rfl, List.nil_prefix⟩)
    rw [run_cons, Option.bind_eq_some_iff] at hs'
    obtain ⟨t, ht, -⟩ := hs'
    refine ⟨t, ht, fun fs hfs => ?_⟩
    obtain ⟨u, hu, hP⟩ := h (e :: fs) (List.cons_prefix_cons.mpr ⟨rfl, hfs⟩)
    exact ⟨u, by simpa [ht] using hu, hP⟩
  · rintro ⟨hP, t, ht, hrest⟩ fs hfs
    cases fs with
    | nil => exact ⟨s, rfl, hP⟩
    | cons f fs =>
      obtain ⟨rfl, hpre⟩ := List.cons_prefix_cons.mp hfs
      obtain ⟨u, hu, hPu⟩ := hrest fs hpre
      exact ⟨u, by simpa [ht] using hu, hPu⟩

lemma always_cons_some {P : S → Prop} {s t : S} {e : E} {es : List E} (h : step s e = some t) :
    Always step P s (e :: es) ↔ P s ∧ Always step P t es := by
  rw [always_cons]
  constructor
  · rintro ⟨hP, u, hu, hrest⟩
    obtain rfl := Option.some.inj (h.symm.trans hu)
    exact ⟨hP, hrest⟩
  · rintro ⟨hP, hrest⟩
    exact ⟨hP, t, h, hrest⟩

lemma not_always_cons_none {P : S → Prop} {s : S} {e : E} {es : List E} (h : step s e = none) :
    ¬ Always step P s (e :: es) := by
  rw [always_cons]
  rintro ⟨-, t, ht, -⟩
  rw [h] at ht
  cases ht

lemma Always.head {P : S → Prop} {s : S} {es : List E} (h : Always step P s es) : P s :=
  always_nil.mp fun fs hfs => h fs (hfs.trans List.nil_prefix)

lemma always_of {I P : S → Prop} (hstep : ∀ s e, I s → ∃ s', step s e = some s' ∧ I s')
    (hP : ∀ s, I s → P s) {s : S} (es : List E) (hs : I s) : Always step P s es := by
  induction es generalizing s with
  | nil => exact always_nil.mpr (hP s hs)
  | cons e es ih =>
    obtain ⟨s', hs', hI⟩ := hstep s e hs
    exact always_cons.mpr ⟨hP s hs, s', hs', ih hI⟩

end CppMisc.Runs
