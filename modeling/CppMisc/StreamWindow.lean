import CppMisc.StreamMeaning
import CppMisc.StreamThrow

/-! `Window` of `stream4.cc` over an action that may throw. The call of the action is the
last statement of `operator()`, so an exception finds `items_` complete, and the pusher
catches it and carries on. -/
namespace CppMisc.Stream
open ListSegments

/-- A `Window` and the vectors that its action was called with. -/
structure Showing (τ : Type) where
  items : Vec τ
  shown : List (List τ)

namespace Showing

variable {τ : Type}

def new (size : ℕ) : Showing τ := ⟨Vec.empty.reserve size, []⟩

/-- `operator()`; the flag says whether an exception leaves it. -/
def call (g : Growth) (w : Showing τ) (item : τ) (throws : Bool) : Showing τ × Bool :=
  let items := windowAccept g w.items item
  (⟨items, w.shown ++ [items.items]⟩, throws)

def reset (w : Showing τ) : Showing τ := ⟨w.items.clear, w.shown⟩

def step (g : Growth) (w : Showing τ) : Handing.Event τ → Option (Showing τ)
  | .push item throws => some (w.call g item throws).1
  | .reset => some w.reset

/-- As long as nothing is thrown this is the object `window` in front of its action. -/
lemma call_object (g : Growth) (w : Showing τ) (item : τ) :
    (Object.window (.action : Object (List τ) (List τ)) w.items).call g item =
      (.window .action (w.call g item false).1.items,
        (w.call g item false).1.shown.drop w.shown.length) := by
  simp [Object.call, call]

/-- The items since the last reset, those before the events included. -/
def pushed : List τ → List (Handing.Event τ) → List τ
  | xs, [] => xs
  | xs, .push item _ :: events => pushed (xs ++ [item]) events
  | _, .reset :: events => pushed [] events

lemma reset_holding {n : ℕ} (xs : List τ) :
    (Vec.holding n (xs.rtake n)).clear = Vec.holding n (([] : List τ).rtake n) := by
  rw [Vec.holding_clear (by rw [rtake_length]; exact min_le_left _ _), List.rtake_nil]

lemma items_run (g : Growth) {n : ℕ} (hn : 1 ≤ n) {events : List (Handing.Event τ)}
    {w w' : Showing τ} {xs : List τ} (hw : w.items = Vec.holding n (xs.rtake n))
    (hrun : Runs.run (step g) w events = some w') :
    w'.items = Vec.holding n ((pushed xs events).rtake n) := by
  induction events generalizing w xs with
  | nil =>
    obtain rfl := Option.some.inj hrun
    exact hw
  | cons e events ih =>
    cases e with
    | push item throws =>
      refine ih (w := (w.call g item throws).1) ?_ hrun
      exact (congrArg (windowAccept g · item) hw).trans (windowAccept_holding g hn xs item)
    | reset =>
      refine ih (w := w.reset) ?_ hrun
      exact (congrArg Vec.clear hw).trans (reset_holding xs)

/-- What a window shows. Whatever its action throws, it holds at most `n` items in the
capacity that it was built with, and a push hands on the last of the items since the last
reset, as many as there are up to `n`. -/
theorem shown_latest (g : Growth) {n : ℕ} (hn : 1 ≤ n) (events : List (Handing.Event τ))
    {w : Showing τ} (hrun : Runs.run (step g) (new n) events = some w) (item : τ)
    (throws : Bool) :
    (w.items.size ≤ n ∧ w.items.capacity = n) ∧
      ∃ batch, (w.call g item throws).1.shown = w.shown ++ [batch] ∧
        batch <:+ pushed [] events ++ [item] ∧
        batch.length = min n (pushed [] events ++ [item]).length := by
  have hitems : w.items = Vec.holding n ((pushed [] events).rtake n) :=
    items_run g hn (by rw [new, Vec.reserve_eq_holding, List.rtake_nil]) hrun
  have hle : ((pushed [] events).rtake n).length ≤ n := by
    rw [rtake_length]
    exact min_le_left _ _
  refine ⟨?_, (pushed [] events ++ [item]).rtake n, ?_, List.drop_suffix _ _, rtake_length _ _⟩
  · rw [hitems]
    exact ⟨hle, Vec.holding_capacity hle⟩
  · have hcall := windowAccept_holding g hn (pushed [] events) item
    rw [← hitems] at hcall
    simp only [call, hcall, Vec.holding_items]

/-- A window of two. The delivery of 2 throws, and the next vector begins with 2. -/
theorem shown_latest_throw :
    ∃ w : Showing ℕ,
      Runs.run (step doubling) (new 2) [.push 1 false, .push 2 true] = some w ∧
        w.items.capacity = 2 ∧ (w.call doubling 3 false).1.shown = [[1], [1, 2], [2, 3]] := by
  obtain ⟨⟨-, hcapacity⟩, -⟩ := shown_latest doubling one_le_two
    [.push 1 false, .push 2 true] rfl 3 false
  exact ⟨_, rfl, hcapacity, rfl⟩

end Showing

end CppMisc.Stream
