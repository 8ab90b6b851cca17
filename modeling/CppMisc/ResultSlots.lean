import CppMisc.Lifetimes
import CppMisc.Parsec
import CppMisc.Runs

/-! The subobjects of the `Result`s of `parsec.cc`: what the constructors and the destructor do
to the members of the union and to the stream, over any sequence of copies and destructions. -/
namespace CppMisc.Parsec
open Lifetimes Runs

inductive Member
  | item
  | error
  | stream
  deriving DecidableEq, Repr

/-- The member of the union that `m_hasError` stands for. -/
def selected (hasError : Bool) : Member := if hasError then .error else .item

/-- A member of a `Result`, which is known by its number. -/
abbrev Slot := ℕ × Member

/-- The constructors from an item and from an error. -/
def construct (i : ℕ) (hasError : Bool) : List (Act Slot) :=
  [.construct (i, selected hasError), .construct (i, .stream)]

/-- The copy constructor: its body assigns to a member of the union. An assignment that is
trivial begins the life of the member; that of an `Error` with its string is not trivial, and
`trivialItem` says what holds of a `TItem`. -/
def copyConstruct (trivialItem : Bool) (i j : ℕ) (hasError : Bool) : List (Act Slot) :=
  [.read (j, .stream), .construct (i, .stream)] ++
    if hasError then [.read (j, .error), .assign (i, .error) false]
    else [.read (j, .item), .assign (i, .item) trivialItem]

/-- The body of `~Result()`, and behind it the destructor of the member `m_stream`. The members
of the union have none that would run by itself. -/
def destruct (i : ℕ) (hasError : Bool) : List (Act Slot) :=
  (if hasError then [.destroy (i, .error)] else [.destroy (i, .item)]) ++
    [.destroy (i, .stream)] ++ [.destroy (i, .stream)]

structure Results where
  next : ℕ
  hasError : ℕ → Bool
  existing : Finset ℕ
  live : Finset Slot

namespace Results

inductive Event
  | build (hasError : Bool)
  | copy (result : ℕ)
  | destroy (result : ℕ)
  deriving DecidableEq, Repr

def empty : Results := ⟨0, fun _ => false, ∅, ∅⟩

variable (trivialItem : Bool)

def acts (s : Results) : Event → List (Act Slot)
  | .build hasError => construct s.next hasError
  | .copy j => copyConstruct trivialItem s.next j (s.hasError j)
  | .destroy i => destruct i (s.hasError i)

def extend (s : Results) (hasError : Bool) (live : Finset Slot) : Results :=
  ⟨s.next + 1, Function.update s.hasError s.next hasError, insert s.next s.existing, live⟩

/-- Only existing results are copied and destroyed. -/
def step (s : Results) (e : Event) : Option Results :=
  let live := applyAll s.live (s.acts trivialItem e)
  match e with
  | .build hasError => some (s.extend hasError live)
  | .copy j => if j ∈ s.existing then some (s.extend (s.hasError j) live) else none
  | .destroy i =>
      if i ∈ s.existing then some { s with existing := s.existing.erase i, live } else none

/-- What a step does. -/
lemma step_cases {s s' : Results} {e : Event} (h : s.step trivialItem e = some s') :
    (∃ hasError, e = .build hasError ∧
        s' = s.extend hasError (applyAll s.live (construct s.next hasError))) ∨
      (∃ j ∈ s.existing, e = .copy j ∧ s' = s.extend (s.hasError j)
        (applyAll s.live (copyConstruct trivialItem s.next j (s.hasError j)))) ∨
      ∃ i ∈ s.existing, e = .destroy i ∧
        s' = { s with
          existing := s.existing.erase i
          live := applyAll s.live (destruct i (s.hasError i)) } := by
  cases e with
  | build hasError => exact .inl ⟨hasError, rfl, (Option.some.inj h).symm⟩
  | copy j =>
    simp only [step] at h
    split_ifs at h with hj
    exact .inr (.inl ⟨j, hj, rfl, (Option.some.inj h).symm⟩)
  | destroy i =>
    simp only [step] at h
    split_ifs at h with hi
    exact .inr (.inr ⟨i, hi, rfl, (Option.some.inj h).symm⟩)

/-! The protocol. -/

/-- In every result exactly the member that `m_hasError` selects and the stream are live. -/
def Selected (s : Results) : Prop :=
  ∀ i ∈ s.existing, ∀ m, (i, m) ∈ s.live ↔ m = selected (s.hasError i) ∨ m = .stream

def DestroyedOnce (s : Results) (e : Event) : Prop :=
  ∀ i, e = .destroy i → ∀ m, (i, m) ∈ s.live →
    (s.acts trivialItem e).count (.destroy (i, m)) = 1

/-- Nothing raw is assigned to or read, what is selected is live, and what is live when its
result is destroyed is destroyed once. -/
def Follows (es : List Event) : Prop :=
  Along (step trivialItem) (fun s e => Initialised s.live (s.acts trivialItem e)) empty es ∧
    Throughout (step trivialItem) Selected empty es ∧
    Along (step trivialItem) (DestroyedOnce trivialItem) empty es

def Event.isBuild : Event → Bool
  | .build _ => true
  | _ => false

def Event.isCopy : Event → Bool
  | .copy _ => true
  | _ => false

def Event.isDestroy : Event → Bool
  | .destroy _ => true
  | _ => false

/-- What holds in every state, the protocol followed or not. -/
structure Fresh (s : Results) : Prop where
  existing_lt : ∀ i ∈ s.existing, i < s.next
  live_lt : ∀ i m, (i, m) ∈ s.live → i < s.next
  stream_live : ∀ i ∈ s.existing, (i, .stream) ∈ s.live

lemma fresh_empty : Fresh empty := ⟨by simp [empty], by simp [empty], by simp [empty]⟩

lemma mem_construct_iff {live : Finset Slot} {i k : ℕ} {m : Member} (hasError : Bool) :
    (k, m) ∈ applyAll live (construct i hasError) ↔
      (k = i ∧ (m = selected hasError ∨ m = .stream)) ∨ (k, m) ∈ live := by
  simp only [construct, applyAll_cons, applyAll_nil, mem_construct, Prod.mk.injEq]
  tauto

lemma mem_copyConstruct_iff {live : Finset Slot} {i j k : ℕ} {m : Member} (hasError : Bool) :
    (k, m) ∈ applyAll live (copyConstruct trivialItem i j hasError) ↔
      (k = i ∧ (m = .stream ∨ ((hasError = false ∧ trivialItem = true) ∧ m = .item))) ∨
        (k, m) ∈ live := by
  cases hasError with
  | false =>
    simp only [copyConstruct, Bool.false_eq_true, if_false, applyAll_append, applyAll_cons,
      applyAll_nil, mem_construct, mem_read, mem_assign, Prod.mk.injEq]
    tauto
  | true =>
    simp only [copyConstruct, if_true, applyAll_append, applyAll_cons, applyAll_nil,
      mem_construct, mem_read, mem_assign, Prod.mk.injEq]
    tauto

lemma mem_destruct_iff {live : Finset Slot} {i k : ℕ} {m : Member} (hasError : Bool) :
    (k, m) ∈ applyAll live (destruct i hasError) ↔
      (k, m) ∈ live ∧ ¬ (k = i ∧ (m = selected hasError ∨ m = .stream)) := by
  cases hasError with
  | false =>
    simp only [destruct, Bool.false_eq_true, if_false, applyAll_append, applyAll_cons,
      applyAll_nil, mem_destroy, Prod.mk.injEq, ne_eq, selected]
    tauto
  | true =>
    simp only [destruct, if_true, applyAll_append, applyAll_cons, applyAll_nil, mem_destroy,
      Prod.mk.injEq, ne_eq, selected]
    tauto

section extend

variable {s : Results} {live : Finset Slot} {P : Member → Prop} {hasError : Bool}

lemma fresh_extend (h : Fresh s)
    (hlive : ∀ k m, (k, m) ∈ live ↔ (k = s.next ∧ P m) ∨ (k, m) ∈ s.live) (hP : P .stream) :
    Fresh (s.extend hasError live) := by
  constructor
  · intro i hi
    rcases Finset.mem_insert.mp hi with rfl | hi
    · exact Nat.lt_succ_self _
    · exact (h.existing_lt i hi).trans (Nat.lt_succ_self _)
  · intro i m hm
    rcases (hlive i m).mp hm with ⟨rfl, -⟩ | hm
    · exact Nat.lt_succ_self _
    · exact (h.live_lt i m hm).trans (Nat.lt_succ_self _)
  · intro i hi
    rcases Finset.mem_insert.mp hi with rfl | hi
    · exact (hlive _ _).mpr (.inl ⟨rfl, hP⟩)
    · exact (hlive _ _).mpr (.inr (h.stream_live i hi))

/-- A new result is in order where the right members of it have come to life. -/
lemma selected_extend (h : Fresh s) (hs : Selected s)
    (hlive : ∀ k m, (k, m) ∈ live ↔ (k = s.next ∧ P m) ∨ (k, m) ∈ s.live) :
    Selected (s.extend hasError live) ↔ ∀ m, P m ↔ m = selected hasError ∨ m = .stream := by
  have hnew : ∀ m, (s.next, m) ∈ live ↔ P m := by
    intro m
    rw [hlive, or_iff_left fun hm => lt_irrefl _ (h.live_lt _ m hm)]
    simp
  constructor
  · intro hsel m
    have hm := hsel s.next (Finset.mem_insert_self _ _) m
    simp only [extend, Function.update_self] at hm
    rw [← hnew, hm]
  · intro hP i hi m
    rcases Finset.mem_insert.mp hi with rfl | hi
    · simp only [extend, Function.update_self]
      rw [hnew, hP]
    · have hne : i ≠ s.next := (h.existing_lt i hi).ne
      have hold := hlive i m
      rw [or_iff_right fun hm => hne hm.1] at hold
      simp only [extend, Function.update_of_ne hne]
      rw [hold]
      exact hs i hi m

end extend

lemma fresh_step {s s' : Results} {e : Event} (h : Fresh s)
    (hstep : s.step trivialItem e = some s') : Fresh s' := by
  obtain ⟨hasError, rfl, rfl⟩ | ⟨j, hj, rfl, rfl⟩ | ⟨i, hi, rfl, rfl⟩ :=
    step_cases trivialItem hstep
  · exact fresh_extend h (fun k m => mem_construct_iff hasError) (.inr rfl)
  · exact fresh_extend h (fun k m => mem_copyConstruct_iff trivialItem (s.hasError j)) (.inl rfl)
  · constructor
    · intro k hk
      exact h.existing_lt k (Finset.mem_of_mem_erase hk)
    · intro k m hm
      exact h.live_lt k m ((mem_destruct_iff _).mp hm).1
    · intro k hk
      obtain ⟨hne, hk⟩ := Finset.mem_erase.mp hk
      exact (mem_destruct_iff _).mpr ⟨h.stream_live k hk, fun hki => hne hki.1⟩

/-- A copy assigns to a member of the union that is raw. -/
lemma initialised_acts {s : Results} {e : Event} (h : Fresh s) :
    Initialised s.live (s.acts trivialItem e) ↔ e.isCopy = false := by
  cases e with
  | build hasError => simp [acts, construct, Initialised, Act.Initialised, Event.isCopy]
  | copy j =>
    have hraw : ∀ m, (s.next, m) ∉ s.live := fun m hm => lt_irrefl _ (h.live_lt _ m hm)
    refine iff_of_false ?_ Bool.noConfusion
    intro hacts
    rw [acts, copyConstruct, initialised_append] at hacts
    cases hj : s.hasError j with
    | false => simp [hj, Initialised, Act.Initialised, hraw] at hacts
    | true => simp [hj, Initialised, Act.Initialised, hraw] at hacts
  | destroy i =>
    refine iff_of_true ?_ rfl
    cases hi : s.hasError i with
    | false => simp [acts, destruct, hi, Initialised, Act.Initialised]
    | true => simp [acts, destruct, hi, Initialised, Act.Initialised]

/-- The results that are copied hold an item, and the assignment brings it to life. -/
def Started (s : Results) (e : Event) : Prop :=
  ∀ j, e = .copy j → s.hasError j = false ∧ trivialItem = true

lemma copied_selected (hasError : Bool) :
    (∀ m, (m = .stream ∨ ((hasError = false ∧ trivialItem = true) ∧ m = .item)) ↔
        m = selected hasError ∨ m = .stream) ↔
      hasError = false ∧ trivialItem = true := by
  constructor
  · intro h
    cases hasError with
    | false => simpa [selected] using h .item
    | true => simpa [selected] using h .error
  · rintro ⟨rfl, rfl⟩ m
    simp only [selected, Bool.false_eq_true, if_false, true_and]
    exact or_comm

lemma selected_step {s s' : Results} {e : Event} (h : Fresh s) (hs : Selected s)
    (hstep : s.step trivialItem e = some s') : Selected s' ↔ Started trivialItem s e := by
  obtain ⟨hasError, rfl, rfl⟩ | ⟨j, hj, rfl, rfl⟩ | ⟨i, hi, rfl, rfl⟩ :=
    step_cases trivialItem hstep
  · refine (selected_extend h hs fun k m => mem_construct_iff hasError).trans ?_
    exact iff_of_true (fun m => Iff.rfl) fun j hj => by cases hj
  · refine (selected_extend h hs fun k m =>
      mem_copyConstruct_iff trivialItem (s.hasError j)).trans ?_
    rw [copied_selected]
    constructor
    · rintro hitem i ⟨⟩
      exact hitem
    · intro hstarted
      exact hstarted j rfl
  · refine iff_of_true ?_ fun j hj => by cases hj
    intro k hk m
    obtain ⟨hne, hk⟩ := Finset.mem_erase.mp hk
    have hother : ¬ (k = i ∧ (m = selected (s.hasError i) ∨ m = .stream)) := fun hki => hne hki.1
    exact ((mem_destruct_iff _).trans (and_iff_left hother)).trans (hs k hk m)

/-- The destructor and the compiler both destroy the stream. -/
lemma destroyedOnce_step {s s' : Results} {e : Event} (h : Fresh s)
    (hstep : s.step trivialItem e = some s') :
    DestroyedOnce trivialItem s e ↔ e.isDestroy = false := by
  obtain ⟨hasError, rfl, rfl⟩ | ⟨j, hj, rfl, rfl⟩ | ⟨i, hi, rfl, rfl⟩ :=
    step_cases trivialItem hstep
  · exact iff_of_true (fun i hi => by cases hi) rfl
  · exact iff_of_true (fun i hi => by cases hi) rfl
  · refine iff_of_false ?_ Bool.noConfusion
    intro honce
    have hcount := honce i rfl .stream (h.stream_live i hi)
    cases hasError : s.hasError i with
    | false => simp [acts, destruct, hasError] at hcount
    | true => simp [acts, destruct, hasError] at hcount

lemma initialised_iff (es : List Event) :
    Along (step trivialItem) (fun s e => Initialised s.live (s.acts trivialItem e)) empty es ↔
      Along (step trivialItem) (fun _ e => e.isCopy = false) empty es :=
  along_congr (fun _ _ _ h hstep => fresh_step trivialItem h hstep)
    (fun _ _ _ h _ => initialised_acts trivialItem h) fresh_empty

lemma selected_iff (es : List Event) :
    Throughout (step trivialItem) Selected empty es ↔
      Along (step trivialItem) (Started trivialItem) empty es :=
  throughout_iff_along (fun _ _ _ h hstep => fresh_step trivialItem h hstep)
    (fun _ _ _ h hs hstep => selected_step trivialItem h hs hstep) fresh_empty
    fun i hi => by simp [empty] at hi

lemma destroyedOnce_iff (es : List Event) :
    Along (step trivialItem) (DestroyedOnce trivialItem) empty es ↔
      Along (step trivialItem) (fun _ e => e.isDestroy = false) empty es :=
  along_congr (fun _ _ _ h hstep => fresh_step trivialItem h hstep)
    (fun _ _ _ h hstep => destroyedOnce_step trivialItem h hstep) fresh_empty

lemma follows_iff_build (es : List Event) :
    Follows trivialItem es ↔ Along (step trivialItem) (fun _ e => e.isBuild = true) empty es := by
  rw [Follows, initialised_iff, selected_iff, destroyedOnce_iff, ← along_and, ← along_and]
  refine along_congr (I := fun _ => True) (fun _ _ _ _ _ => trivial) ?_ trivial
  intro s e s' _ _
  cases e with
  | build hasError =>
    exact iff_of_true ⟨rfl, (fun j hj => by cases hj), rfl⟩ rfl
  | copy j => exact iff_of_false (fun h => Bool.noConfusion h.1) Bool.noConfusion
  | destroy i => exact iff_of_false (fun h => Bool.noConfusion h.2.2) Bool.noConfusion

/-- When results follow the protocol: exactly while none is copied and none is destroyed. A copy
is what uses raw members and leaves the member of the union raw, unless it is an item of a
trivial type; a destruction is what destroys a stream twice. -/
theorem follows_iff (es : List Event) :
    (Follows trivialItem es ↔
        Along (step trivialItem) (fun _ e => e.isBuild = true) empty es) ∧
      (Along (step trivialItem) (fun s e => Initialised s.live (s.acts trivialItem e)) empty es ↔
        Along (step trivialItem) (fun _ e => e.isCopy = false) empty es) ∧
      (Throughout (step trivialItem) Selected empty es ↔
        Along (step trivialItem) (Started trivialItem) empty es) ∧
      (Along (step trivialItem) (DestroyedOnce trivialItem) empty es ↔
        Along (step trivialItem) (fun _ e => e.isDestroy = false) empty es) :=
  ⟨follows_iff_build trivialItem es, initialised_iff trivialItem es, selected_iff trivialItem es,
    destroyedOnce_iff trivialItem es⟩

/-- An error that is copied, and an item of a trivial type that is destroyed. -/
theorem not_follows_copy_destroy :
    (∃ s, run (step false) empty [.build true, .copy 0] = some s ∧ 1 ∈ s.existing ∧
        s.hasError 1 = true ∧ (1, Member.error) ∉ s.live) ∧
      ¬ Follows false [.build true, .copy 0] ∧ ¬ Follows true [.build false, .destroy 0] := by
  refine ⟨⟨_, rfl, by decide, rfl, by decide⟩, ?_, ?_⟩
  · intro h
    have hall := (along_iff_forall (C := fun e : Event => e.isBuild = true) rfl).mp
      ((follows_iff_build _ _).mp h)
    simp [Event.isBuild] at hall
  · intro h
    have hall := (along_iff_forall (C := fun e : Event => e.isBuild = true) rfl).mp
      ((follows_iff_build _ _).mp h)
    simp [Event.isBuild] at hall

end Results

end CppMisc.Parsec
