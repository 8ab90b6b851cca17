import CppMisc.Runs
import CppMisc.StreamPipeline

/-! `Buffer` of `stream4.cc` over an action that may throw. The exception leaves
`operator()` before `items_.clear()`, and the pusher catches it and carries on. -/
namespace CppMisc.Stream

/-- A `Buffer` and what has been handed to its action so far. -/
structure Handing (τ : Type) where
  items : Vec τ
  batches : List (List τ)

/-- What happens to the buffer; `throws` says what the action does if this push calls it. -/
inductive Handing.Event (τ : Type)
  | push (item : τ) (throws : Bool)
  | reset

namespace Handing

variable {τ : Type}

def new (size : ℕ) : Handing τ := ⟨Vec.empty.reserve size, []⟩

def call (g : Growth) (b : Handing τ) (item : τ) (throws : Bool) : Handing τ :=
  let items := b.items.pushBack g item
  if items.full then
    ⟨if throws then items else items.clear, b.batches ++ [items.items]⟩
  else ⟨items, b.batches⟩

def reset (b : Handing τ) : Handing τ := ⟨b.items.clear, b.batches⟩

def step (g : Growth) (b : Handing τ) : Event τ → Option (Handing τ)
  | .push item throws => some (b.call g item throws)
  | .reset => some b.reset

/-- As long as nothing is thrown this is the object `buffer` in front of its action. -/
lemma call_object (g : Growth) (b : Handing τ) (item : τ) :
    (Object.buffer (.action : Object (List τ) (List τ)) b.items).call g item =
        (.buffer .action (b.call g item false).items,
          (b.call g item false).batches.drop b.batches.length) := by
  cases hfull : (b.items.pushBack g item).full with
  | true => simp [Object.call, call, hfull]
  | false => simp [Object.call, call, hfull]

/-- Batches of `n` items, and fewer than `n` items between the pushes. -/
structure Regular (n : ℕ) (b : Handing τ) : Prop where
  batches : ∀ batch ∈ b.batches, batch.length = n
  items : b.items.size < n

/-- The action does not throw, or this push does not fill the buffer. -/
def Quiet (n : ℕ) (b : Handing τ) : Event τ → Prop
  | .push _ throws => throws = true → b.items.size + 1 < n
  | .reset => True

lemma pushBack_full (g : Growth) {b : Handing τ} (h : b.items.size < b.items.capacity) (item : τ) :
    (b.items.pushBack g item).full = true ↔ b.items.size + 1 = b.items.capacity := by
  rw [Vec.full, Vec.pushBack_capacity g h, Vec.pushBack_size, decide_eq_true_eq]
  omega

lemma call_short (g : Growth) {b : Handing τ} (h : b.items.size + 1 < b.items.capacity)
    (item : τ) (throws : Bool) :
    b.call g item throws = ⟨b.items.pushBack g item, b.batches⟩ := by
  have hfull := pushBack_full g (Nat.lt_of_succ_lt h) item
  rw [call, if_neg]
  rw [hfull]
  omega

lemma call_fills (g : Growth) {b : Handing τ} (h : b.items.size + 1 = b.items.capacity)
    (item : τ) (throws : Bool) :
    b.call g item throws =
      ⟨if throws then b.items.pushBack g item else (b.items.pushBack g item).clear,
        b.batches ++ [b.items.items ++ [item]]⟩ := by
  have hfull := pushBack_full g (b := b) (by omega) item
  rw [call, if_pos (hfull.mpr h), Vec.pushBack_items]

lemma regular_call (g : Growth) {n : ℕ} {b : Handing τ} (hcap : b.items.capacity = n)
    (h : b.Regular n) (item : τ) (throws : Bool) :
    ((b.call g item throws).Regular n ↔ b.Quiet n (.push item throws)) ∧
      (b.call g item throws).items.capacity = n := by
  have hitems := h.items
  have hsize := b.items.pushBack_size g item
  have hcapacity : (b.items.pushBack g item).capacity = n := by
    rw [Vec.pushBack_capacity g (by omega), hcap]
  by_cases hlt : b.items.size + 1 < n
  · rw [call_short g (by omega)]
    exact ⟨iff_of_true ⟨h.batches, hsize.trans_lt hlt⟩ fun _ => hlt, hcapacity⟩
  · have hn : b.items.size + 1 = n := by omega
    have hbatch : (b.items.items ++ [item]).length = n := by
      rw [List.length_append]
      exact hn
    rw [call_fills g (by omega)]
    cases throws with
    | true =>
      refine ⟨iff_of_false ?_ fun hquiet => hlt (hquiet rfl), hcapacity⟩
      intro hregular
      have hlast : (b.items.pushBack g item).size < n := hregular.items
      omega
    | false =>
      refine ⟨iff_of_true ⟨?_, ?_⟩ fun hthrows => absurd hthrows Bool.false_ne_true, hcapacity⟩
      · intro batch hmem
        rcases List.mem_append.mp hmem with hold | hnew
        · exact h.batches batch hold
        · rw [List.mem_singleton.mp hnew, hbatch]
      · show (0 : ℕ) < n
        omega

lemma regular_step (g : Growth) {n : ℕ} {b b' : Handing τ} {e : Event τ}
    (hcap : b.items.capacity = n) (h : b.Regular n) (hstep : step g b e = some b') :
    (b'.Regular n ↔ b.Quiet n e) ∧ (b.Quiet n e → b'.items.capacity = n) := by
  cases e with
  | push item throws =>
    obtain rfl := Option.some.inj hstep
    obtain ⟨hiff, hcap'⟩ := regular_call g hcap h item throws
    exact ⟨hiff, fun _ => hcap'⟩
  | reset =>
    obtain rfl := Option.some.inj hstep
    exact ⟨iff_of_true ⟨h.batches, Nat.zero_lt_of_lt h.items⟩ trivial, fun _ => hcap⟩

/-- When the batches keep their size: exactly in the runs in which the action throws on no
batch that it is given. -/
theorem regular_iff_quiet (g : Growth) {n : ℕ} (hn : 1 ≤ n) (events : List (Event τ)) :
    Runs.Throughout (step g) (Regular n) (new n) events ↔
      Runs.Along (step g) (Quiet n) (new n) events :=
  Runs.throughout_iff_along_of (I := fun b : Handing τ => b.items.capacity = n)
    (fun _ _ _ hcap h hstep => regular_step g hcap h hstep) (Vec.reserve_empty_capacity n)
    ⟨by simp [new], hn⟩

theorem regular_iff_quiet_once :
    Runs.Throughout (step doubling) (Regular 2) (new 2) [.push 1 true, .push 2 false, .reset] :=
  (regular_iff_quiet doubling one_le_two _).mpr (by
    rintro s' hs'
    obtain rfl := Option.some.inj hs'
    refine ⟨fun _ => one_lt_two, ?_⟩
    rintro s' hs'
    obtain rfl := Option.some.inj hs'
    refine ⟨fun h => absurd h Bool.false_ne_true, ?_⟩
    rintro s' hs'
    exact ⟨trivial, trivial⟩)

/-- Batches of two. The second push throws, and the next batch has five items, the two that
were handed on before among them. -/
theorem batches_grow :
    (Runs.run (step doubling) (new 2) [.push 1 false, .push 2 true, .push 3 false, .push 4 false,
        .push 5 false]).map batches = some [[1, 2], [1, 2, 3, 4, 5]] ∧
      ¬ Runs.Throughout (step doubling) (Regular 2) (new 2) [.push 1 false, .push 2 true,
        .push 3 false, .push 4 false, .push 5 false] := by
  refine ⟨by decide, ?_⟩
  intro h
  have hlast := Runs.throughout_iff_prefix.mp h _ List.prefix_rfl _ rfl
  exact absurd (hlast.batches [1, 2, 3, 4, 5] (by decide)) (by decide)

end Handing

end CppMisc.Stream
