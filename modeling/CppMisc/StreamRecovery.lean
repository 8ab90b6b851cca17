import CppMisc.StreamReset
import CppMisc.StreamThreads
import CppMisc.StreamWindow

/-! Whole pipelines of `stream4.cc` under exceptions. A call reaches the final action at most
once, and what the action throws passes through every stage to the pusher, who catches it. The
statements of `operator()` behind the call of the action are left out on the way. -/
namespace CppMisc.Stream
open Runs

variable {ω : Type} (g : Growth)

/-- `operator()` where the action throws if it is called and the flag says so. The last
component says whether an exception leaves the call. -/
def Object.tryCall {α : Type} : Object ω α → α → Bool → Object ω α × List ω × Bool
  | .action, item, throws => (.action, [item], throws)
  | .where_ inner predicate, item, throws =>
      if predicate item then
        let r := inner.tryCall item throws
        (.where_ r.1 predicate, r.2)
      else (.where_ inner predicate, [], false)
  | .select inner mapper, item, throws =>
      let r := inner.tryCall (mapper item) throws
      (.select r.1 mapper, r.2)
  | .buffer inner items, item, throws =>
      let items := items.pushBack g item
      if items.full then
        let r := inner.tryCall items.items throws
        (.buffer r.1 (if r.2.2 then items else items.clear), r.2)
      else (.buffer inner items, [], false)
  | .window inner items, item, throws =>
      let items := windowAccept g items item
      let r := inner.tryCall items.items throws
      (.window r.1 items, r.2)

def Handing.Event.op {α : Type} : Handing.Event α → Op α
  | .push item _ => .push item
  | .reset => .reset

def Object.tryApply {α : Type} (o : Object ω α) :
    Handing.Event α → Object ω α × List ω × Bool
  | .push item throws => o.tryCall g item throws
  | .reset => (o.reset, [], false)

/-- The object after a run and what the action was called with in it. -/
def Object.tryAll {α : Type} : Object ω α → List (Handing.Event α) → Object ω α × List ω
  | o, [] => (o, [])
  | o, e :: es =>
      let r := o.tryApply g e
      let s := r.1.tryAll es
      (s.1, r.2.1 ++ s.2)

/-- Whoever catches an exception resets the pipeline next. -/
def Object.Recovers {α : Type} : Object ω α → List (Handing.Event α) → Prop
  | _, [] => True
  | o, e :: es =>
      ((o.tryApply g e).2.2 = true → ∃ es', es = .reset :: es') ∧
        (o.tryApply g e).1.Recovers es

/-- No stage keeps a batch that the action threw on. -/
def Object.Unbuffered {α : Type} : Object ω α → Prop
  | .action => True
  | .where_ inner _ => inner.Unbuffered
  | .select inner _ => inner.Unbuffered
  | .buffer _ _ => False
  | .window inner _ => inner.Unbuffered

/-- A `reset()` on the object comes to every buffer in it. -/
def Object.Recoverable {α : Type} : Object ω α → Prop
  | .action => True
  | .where_ inner _ => inner.Unbuffered
  | .select inner _ => inner.Unbuffered
  | .buffer inner _ => inner.Recoverable
  | .window inner _ => inner.Recoverable

namespace Object

variable {α : Type}

attribute [local simp] tryCall tryApply tryAll Recovers Unbuffered Recoverable

/-- What the action is called with does not depend on what it throws, and an exception leaves
the call where the action throws and is called. -/
lemma tryCall_snd (o : Object ω α) (item : α) (throws : Bool) :
    (o.tryCall g item throws).2.1 = (o.call g item).2 ∧
      (o.tryCall g item throws).2.2 = (throws && !(o.call g item).2.isEmpty) := by
  induction o with
  | action => simp [call]
  | where_ inner predicate ih =>
    by_cases hp : predicate item
    · simpa [call, hp] using ih item
    · simp [call, hp]
  | select inner mapper ih => exact ih (mapper item)
  | buffer inner items ih =>
    by_cases hf : (items.pushBack g item).full
    · simpa [call, hf] using ih (items.pushBack g item).items
    · simp [call, hf]
  | window inner items ih => exact ih (windowAccept g items item).items

lemma tryCall_quiet (o : Object ω α) (item : α) (throws : Bool)
    (h : (o.tryCall g item throws).2.2 = false) :
    (o.tryCall g item throws).1 = (o.call g item).1 := by
  induction o with
  | action => rfl
  | where_ inner predicate ih =>
    by_cases hp : predicate item
    · simp only [tryCall, hp, if_true] at h
      simp [call, hp, ih item h]
    · simp [call, hp]
  | select inner mapper ih => exact congrArg (Object.select · mapper) (ih (mapper item) h)
  | buffer inner items ih =>
    by_cases hf : (items.pushBack g item).full
    · simp only [tryCall, hf, if_true, Vec.pushBack_items] at h
      simp [call, hf, h, ih _ h]
    · simp [call, hf]
  | window inner items ih =>
    exact congrArg (Object.window · (windowAccept g items item)) (ih _ h)

/-- An exception shows in the object exactly where it comes through a buffer. -/
lemma tryCall_eq_iff (o : Object ω α) (item : α) (throws : Bool)
    (h : (o.tryCall g item throws).2.2 = true) :
    (o.tryCall g item throws).1 = (o.call g item).1 ↔ o.Unbuffered := by
  induction o with
  | action => exact iff_of_true rfl trivial
  | where_ inner predicate ih =>
    by_cases hp : predicate item
    · simp only [tryCall, hp, if_true] at h
      simpa [call, hp] using ih item h
    · simp [hp] at h
  | select inner mapper ih => simpa [call] using ih (mapper item) h
  | buffer inner items ih =>
    by_cases hf : (items.pushBack g item).full
    · simp only [tryCall, hf, if_true] at h
      refine iff_of_false ?_ id
      simp only [tryCall, call, hf, if_true, h]
      intro heq
      injection heq with _ hinner hitems
      have hlen := congrArg Vec.size hitems
      simp [Vec.clear, Vec.size] at hlen
    · simp [hf] at h
  | window inner items ih =>
    simpa [call] using ih (windowAccept g items item).items h

lemma tryCall_reset_eq_iff (o : Object ω α) (item : α) (throws : Bool)
    (h : (o.tryCall g item throws).2.2 = true) :
    (o.tryCall g item throws).1.reset = (o.call g item).1.reset ↔ o.Recoverable := by
  induction o with
  | action => exact iff_of_true rfl trivial
  | where_ inner predicate ih =>
    by_cases hp : predicate item
    · simp only [tryCall, hp, if_true] at h
      simpa [call, hp, reset] using inner.tryCall_eq_iff g item throws h
    · simp [hp] at h
  | select inner mapper ih =>
    simpa [call, reset] using inner.tryCall_eq_iff g _ throws h
  | buffer inner items ih =>
    by_cases hf : (items.pushBack g item).full
    · simp only [tryCall, hf, if_true, Vec.pushBack_items] at h
      have hclear : (items.pushBack g item).clear.clear = (items.pushBack g item).clear := rfl
      simpa [call, hf, h, reset, hclear] using ih _ h
    · simp [hf] at h
  | window inner items ih => simpa [call, reset] using ih _ h

lemma Unbuffered.tryCall_eq {o : Object ω α} (hu : o.Unbuffered) (item : α) (throws : Bool) :
    (o.tryCall g item throws).1 = (o.call g item).1 := by
  cases h : (o.tryCall g item throws).2.2 with
  | true => exact (o.tryCall_eq_iff g item throws h).mpr hu
  | false => exact o.tryCall_quiet g item throws h

lemma Unbuffered.recoverable {o : Object ω α} (hu : o.Unbuffered) : o.Recoverable := by
  induction o with
  | action => trivial
  | where_ inner predicate ih => exact hu
  | select inner mapper ih => exact hu
  | buffer inner items ih => cases hu
  | window inner items ih => exact ih hu

lemma unbuffered_tryCall (o : Object ω α) (item : α) (throws : Bool) :
    (o.tryCall g item throws).1.Unbuffered ↔ o.Unbuffered := by
  induction o with
  | action => rfl
  | where_ inner predicate ih =>
    by_cases hp : predicate item
    · simpa [hp] using ih item
    · simp [hp]
  | select inner mapper ih => exact ih (mapper item)
  | buffer inner items ih =>
    by_cases hf : (items.pushBack g item).full <;> simp [hf]
  | window inner items ih => exact ih (windowAccept g items item).items

lemma unbuffered_reset (o : Object ω α) : o.reset.Unbuffered ↔ o.Unbuffered := by
  induction o with
  | window inner items ih => exact ih
  | _ => rfl

lemma recoverable_tryCall (o : Object ω α) (item : α) (throws : Bool) :
    (o.tryCall g item throws).1.Recoverable ↔ o.Recoverable := by
  induction o with
  | action => rfl
  | where_ inner predicate ih =>
    by_cases hp : predicate item
    · simpa [hp] using inner.unbuffered_tryCall g item throws
    · simp [hp]
  | select inner mapper ih => exact inner.unbuffered_tryCall g (mapper item) throws
  | buffer inner items ih =>
    by_cases hf : (items.pushBack g item).full
    · simpa [hf] using ih (items.pushBack g item).items
    · simp [hf]
  | window inner items ih => exact ih (windowAccept g items item).items

lemma recoverable_reset (o : Object ω α) : o.reset.Recoverable ↔ o.Recoverable := by
  induction o with
  | buffer inner items ih => exact ih
  | window inner items ih => exact ih
  | _ => rfl

lemma Unbuffered.tryApply {o : Object ω α} (hu : o.Unbuffered) (e : Handing.Event α) :
    (o.tryApply g e).1.Unbuffered := by
  cases e with
  | push item throws => exact (o.unbuffered_tryCall g item throws).mpr hu
  | reset => exact o.unbuffered_reset.mpr hu

lemma Recoverable.tryApply {o : Object ω α} (hr : o.Recoverable) (e : Handing.Event α) :
    (o.tryApply g e).1.Recoverable := by
  cases e with
  | push item throws => exact (o.recoverable_tryCall g item throws).mpr hr
  | reset => exact o.recoverable_reset.mpr hr

lemma tryApply_received (o : Object ω α) (e : Handing.Event α) :
    (o.tryApply g e).2.1 = (o.apply g e.op).2 := by
  cases e with
  | push item throws => exact (o.tryCall_snd g item throws).1
  | reset => rfl

lemma Unbuffered.tryAll_eq {o : Object ω α} (hu : o.Unbuffered) (es : List (Handing.Event α)) :
    o.tryAll g es = o.applyAll g (es.map Handing.Event.op) := by
  induction es generalizing o with
  | nil => rfl
  | cons e es ih =>
    have hobject : (o.tryApply g e).1 = (o.apply g e.op).1 := by
      cases e with
      | push item throws => exact hu.tryCall_eq g item throws
      | reset => rfl
    have hnext : (o.apply g e.op).1.Unbuffered := hobject ▸ hu.tryApply g e
    simp only [tryAll, List.map_cons, applyAll, hobject, o.tryApply_received g e, ih hnext]

/-- A run that starts with a `reset()` depends on the object after it only. -/
lemma applyAll_reset {o o' : Object ω α} (h : o.reset = o'.reset) (ops : List (Op α)) :
    o.applyAll g (.reset :: ops) = o'.applyAll g (.reset :: ops) := by
  simp only [applyAll, apply, h]

lemma Recoverable.tryAll_eq {o : Object ω α} (hr : o.Recoverable) {es : List (Handing.Event α)}
    (h : o.Recovers g es) : o.tryAll g es = o.applyAll g (es.map Handing.Event.op) := by
  induction es generalizing o with
  | nil => rfl
  | cons e es ih =>
    have hrest : (o.tryApply g e).1.tryAll g es =
        (o.apply g e.op).1.applyAll g (es.map Handing.Event.op) := by
      rw [ih (hr.tryApply g e) h.2]
      cases e with
      | reset => rfl
      | push item throws =>
        cases hthrown : (o.tryCall g item throws).2.2 with
        | false =>
          exact congrArg (fun o : Object ω α => o.applyAll g (es.map Handing.Event.op))
            (o.tryCall_quiet g item throws hthrown)
        | true =>
          obtain ⟨es', rfl⟩ := h.1 hthrown
          exact applyAll_reset g ((o.tryCall_reset_eq_iff g item throws hthrown).mpr hr) _
    simp only [tryAll, List.map_cons, applyAll, hrest, o.tryApply_received g e]

lemma tryAll_append (o : Object ω α) (es es' : List (Handing.Event α)) :
    o.tryAll g (es ++ es') =
      (((o.tryAll g es).1.tryAll g es').1,
        (o.tryAll g es).2 ++ ((o.tryAll g es).1.tryAll g es').2) := by
  induction es generalizing o with
  | nil => simp
  | cons e es ih => simp [ih]

lemma tryApply_quiet (o : Object ω α) (item : α) :
    o.tryApply g (.push item false) = ((o.call g item).1, (o.call g item).2, false) := by
  obtain ⟨hreceived, hthrown⟩ := o.tryCall_snd g item false
  exact Prod.ext (o.tryCall_quiet g item false hthrown) (Prod.ext hreceived hthrown)

lemma tryAll_quiet (o : Object ω α) (items : List α) :
    o.tryAll g (items.map (Handing.Event.push · false)) = o.pushAll g items := by
  induction items generalizing o with
  | nil => rfl
  | cons item items ih => simp only [List.map_cons, tryAll, tryApply_quiet, ih, pushAll]

lemma Recovers.quiet {o : Object ω α} {items : List α} {es : List (Handing.Event α)}
    (h : (o.pushAll g items).1.Recovers g es) :
    o.Recovers g (items.map (Handing.Event.push · false) ++ es) := by
  induction items generalizing o with
  | nil => exact h
  | cons item items ih =>
    rw [List.map_cons, List.cons_append, Recovers, tryApply_quiet]
    exact ⟨fun hthrown => absurd hthrown Bool.false_ne_true, ih h⟩

end Object

/-- A `Buffer` in front of its action is the one whose batches are recorded, -/
lemma Handing.call_tryCall {τ : Type} (b : Handing τ) (item : τ) (throws : Bool) :
    (Object.buffer (.action : Object (List τ) (List τ)) b.items).tryCall g item throws =
      (.buffer .action (b.call g item throws).items,
        (b.call g item throws).batches.drop b.batches.length,
        throws && (b.items.pushBack g item).full) := by
  cases hfull : (b.items.pushBack g item).full with
  | true => simp [Object.tryCall, call, hfull]
  | false => simp [Object.tryCall, call, hfull]

/-- and a `Window` the one whose vectors are. -/
lemma Showing.call_tryCall {τ : Type} (w : Showing τ) (item : τ) (throws : Bool) :
    (Object.window (.action : Object (List τ) (List τ)) w.items).tryCall g item throws =
      (.window .action (w.call g item throws).1.items,
        (w.call g item throws).1.shown.drop w.shown.length, (w.call g item throws).2) := by
  simp [Object.tryCall, call]

def Stage.buffers {α β : Type} : Stage α β → Bool
  | .where_ _ => false
  | .select _ => false
  | .buffer _ => true
  | .window _ => false

namespace Pipeline

variable {α β : Type}

def Unbuffered {α β : Type} : Pipeline α β → Prop
  | .nil => True
  | .cons s p => s.buffers = false ∧ p.Unbuffered

lemma settle_unbuffered (p : Pipeline α β) (xs : List α) (inner : Object ω β) :
    (p.settle xs inner).Unbuffered ↔ p.Unbuffered ∧ inner.Unbuffered := by
  induction p with
  | nil => simp [settle, Unbuffered]
  | cons s p ih =>
    cases s <;> simp [settle, Stage.settle, Object.Unbuffered, Unbuffered, Stage.buffers, ih]

lemma settle_recoverable (p : Pipeline α β) (xs : List α) (inner : Object ω β)
    (hi : inner.Unbuffered) :
    (p.settle xs inner).Recoverable ↔ p.split.back.Unbuffered := by
  induction p with
  | nil => exact iff_of_true hi.recoverable trivial
  | cons s p ih =>
    cases s <;> simp [settle, Stage.settle, Object.Recoverable, split, Stage.forwards, Unbuffered,
      Stage.buffers, settle_unbuffered, hi, ih]

/-- In a lossless pipeline the items of one batch of the whole come to the action with the last
of them. -/
lemma Lossless.last_delivers {p : Pipeline α ω} (hl : p.Lossless) (hp : p.Positive) (a : α) :
    (((p.build .action).pushAll g (List.replicate (p.width - 1) a)).1.call g a).2 ≠ [] := by
  have hw := hp.width_pos
  have hwhole := p.pushAll_closed g hp (List.replicate (p.width - 1) a ++ [a])
  rw [Object.pushAll_append, p.pushAll_closed g hp, Object.pushAll, Object.pushAll,
    List.append_nil] at hwhole
  intro hnil
  rw [p.build_settle] at hnil
  rw [hnil, List.append_nil] at hwhole
  have hlen := congrArg List.length hwhole
  rw [hl.meaning_length, hl.meaning_length, List.length_append, List.length_replicate,
    List.length_singleton, Nat.sub_add_cancel hw, Nat.div_self hw,
    Nat.div_eq_of_lt (Nat.sub_lt hw one_pos)] at hlen
  cases hlen

/-- A run with exceptions leaves the objects and what the action was called with as the same run
without any does. -/
def Unnoticed (p : Pipeline α ω) (es : List (Handing.Event α)) : Prop :=
  (p.build .action).tryAll g es = (p.build .action).applyAll g (es.map Handing.Event.op)

/-- A run that ends with a first delivery, on which the action throws. -/
def failing (p : Pipeline α ω) (a : α) : List (Handing.Event α) :=
  (List.replicate (p.width - 1) a).map (Handing.Event.push · false) ++ [.push a true]

lemma Lossless.failing_throws {p : Pipeline α ω} (hl : p.Lossless) (hp : p.Positive) (a : α) :
    (((p.build .action).pushAll g (List.replicate (p.width - 1) a)).1.tryCall g a true).2.2 =
      true := by
  rw [(Object.tryCall_snd g _ a true).2, Bool.true_and, Bool.not_eq_true',
    List.isEmpty_eq_false_iff]
  exact hl.last_delivers g hp a

lemma failing_op (p : Pipeline α ω) (a : α) :
    (p.failing a).map Handing.Event.op =
      (List.replicate (p.width - 1) a).map Op.push ++ [Op.push a] := by
  simp [failing, Handing.Event.op]

lemma Lossless.unbuffered_of_unnoticed {p : Pipeline α ω} (hl : p.Lossless) (hp : p.Positive)
    (a : α) (h : Unnoticed g p (p.failing a)) : p.Unbuffered := by
  have hobject := congrArg Prod.fst h
  rw [failing_op, failing, Object.tryAll_append, Object.tryAll_quiet, Object.applyAll_append,
    Object.applyAll_push] at hobject
  have hu := (Object.tryCall_eq_iff g _ a true (hl.failing_throws g hp a)).mp hobject
  rw [p.build_settle, p.pushAll_fresh g hp, Object.action_pushAll] at hu
  exact ((p.settle_unbuffered _ _).mp hu).1

lemma Lossless.recoverable_of_unnoticed {p : Pipeline α ω} (hl : p.Lossless) (hp : p.Positive)
    (a : α) (h : Unnoticed g p (p.failing a ++ [.reset])) : p.split.back.Unbuffered := by
  have hobject := congrArg Prod.fst h
  rw [List.map_append, failing_op, failing, Object.tryAll_append, Object.tryAll_append,
    Object.tryAll_quiet, Object.applyAll_append, Object.applyAll_append,
    Object.applyAll_push] at hobject
  have hr := (Object.tryCall_reset_eq_iff g _ a true (hl.failing_throws g hp a)).mp hobject
  rw [p.build_settle, p.pushAll_fresh g hp, Object.action_pushAll] at hr
  exact (p.settle_recoverable _ .action trivial).mp hr

lemma failing_recovers (p : Pipeline α ω) (a : α) :
    (p.build .action).Recovers g (p.failing a ++ [.reset]) := by
  rw [failing, List.append_assoc]
  exact Object.Recovers.quiet g ⟨fun _ => ⟨[], rfl⟩, fun h => absurd h Bool.false_ne_true, trivial⟩

/-- When exceptions of the action go unnoticed. They do in every run if no stage is a buffer, and
in every run in which whoever catches one calls `reset()` next if no buffer lies behind the
stages that a `reset()` on the head reaches; and in a lossless pipeline only then. -/
theorem unnoticed_iff (p : Pipeline α ω) :
    (p.Unbuffered → ∀ es, Unnoticed g p es) ∧
    (p.split.back.Unbuffered → ∀ es, (p.build .action).Recovers g es → Unnoticed g p es) ∧
    (Nonempty α → p.Positive → p.Lossless →
      ((∀ es, Unnoticed g p es) → p.Unbuffered) ∧
      ((∀ es, (p.build .action).Recovers g es → Unnoticed g p es) →
        p.split.back.Unbuffered)) := by
  refine ⟨?_, ?_, ?_⟩
  · intro hu es
    refine Object.Unbuffered.tryAll_eq g ?_ es
    rw [p.build_settle]
    exact (p.settle_unbuffered [] _).mpr ⟨hu, trivial⟩
  · intro hu es hes
    refine Object.Recoverable.tryAll_eq g ?_ hes
    rw [p.build_settle]
    exact (p.settle_recoverable [] .action trivial).mpr hu
  · rintro ⟨a⟩ hp hl
    exact ⟨fun hall => hl.unbuffered_of_unnoticed g hp a (hall _),
      fun hall => hl.recoverable_of_unnoticed g hp a (hall _ (p.failing_recovers g a))⟩

/-- `buffer(2) >> window(2)`, and a `reset()` for the batch that is thrown on. -/
def bufferWindow : Pipeline ℕ (List (List ℕ)) := .cons (.buffer 2) (.cons (.window 2) .nil)

def recoveringRun : List (Handing.Event ℕ) :=
  [.push 1 false, .push 2 true, .reset, .push 3 false, .push 4 false]

theorem unnoticed_iff_recovering :
    Unnoticed doubling bufferWindow recoveringRun ∧
      ((bufferWindow.build .action).tryAll doubling recoveringRun).2 = [[[1, 2]], [[3, 4]]] := by
  have h : Unnoticed doubling bufferWindow recoveringRun :=
    (unnoticed_iff doubling bufferWindow).2.1 trivial _
      ⟨fun h => absurd h (by decide), fun _ => ⟨_, rfl⟩, fun h => absurd h (by decide),
        fun h => absurd h (by decide), fun h => absurd h (by decide), trivial⟩
  exact ⟨h, (congrArg Prod.snd h).trans (by decide)⟩

end Pipeline

end CppMisc.Stream
