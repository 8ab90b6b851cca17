import CppMisc.Runs
import CppMisc.StreamPipeline

/-! The limits of `buffer(n)` and `window(n)` in `stream4.cc`. Neither stage stores its
limit: both read it back from `capacity()`, `Buffer` after the `push_back` and `Window`
before it. -/
namespace CppMisc.Stream

inductive Sized
  | buffer
  | window
  deriving DecidableEq, Repr

inductive Sized.Event (τ : Type)
  | push (item : τ)
  | reset

namespace Sized

variable {τ ω : Type}

/-- `items_` after a push, or none where `erase` is called on an empty vector. -/
def call (g : Growth) : Sized → Vec τ → τ → Option (Vec τ)
  | .buffer, items, item =>
      let items := items.pushBack g item
      some (if items.full then items.clear else items)
  | .window, items, item =>
      if items.full && items.items.isEmpty then none else some (windowAccept g items item)

def object (inner : Object ω (List τ)) (items : Vec τ) : Sized → Object ω τ
  | .buffer => .buffer inner items
  | .window => .window inner items

/-- A push that erases nothing from an empty vector is that of the stage. -/
lemma call_object (g : Growth) (k : Sized) (inner : Object ω (List τ)) {items items' : Vec τ}
    {item : τ} (h : k.call g items item = some items') :
    ∃ inner', ((k.object inner items).call g item).1 = k.object inner' items' := by
  cases k with
  | buffer =>
    obtain rfl := Option.some.inj h
    by_cases hfull : (items.pushBack g item).full = true
    · simp only [object, Object.call, if_pos hfull]
      exact ⟨_, rfl⟩
    · simp only [object, Object.call, if_neg hfull]
      exact ⟨_, rfl⟩
  | window =>
    simp only [call] at h
    split_ifs at h
    obtain rfl := Option.some.inj h
    exact ⟨_, rfl⟩

def step (g : Growth) (k : Sized) (items : Vec τ) : Event τ → Option (Vec τ)
  | .push item => k.call g items item
  | .reset => some items.clear

/-- No element is erased from an empty vector, and after every call at most `max n 1` items
are held. -/
def Safe (g : Growth) (k : Sized) (n : ℕ) (events : List (Event τ)) : Prop :=
  Runs.Always (step g k) (fun items => items.size ≤ max n 1) (Vec.empty.reserve n) events

def Event.isReset : Event τ → Bool
  | .push _ => false
  | .reset => true

/-- One of two neighbouring events is a reset. -/
def Apart (e f : Event τ) : Prop := e.isReset = true ∨ f.isReset = true

/-! A buffer that has room for an item. -/

lemma buffer_call_of_lt (g : Growth) {items : Vec τ} (h : items.size < items.capacity)
    (item : τ) :
    ∃ items', call g .buffer items item = some items' ∧ items'.capacity = items.capacity ∧
      items'.size < items.capacity ∧ items'.size ≤ items.size + 1 := by
  refine ⟨_, rfl, ?_⟩
  have hcapacity := Vec.pushBack_capacity g h item
  split_ifs with hfull
  · exact ⟨hcapacity, Nat.zero_lt_of_lt h, Nat.zero_le _⟩
  · have hsize := Vec.pushBack_size g items item
    rw [Vec.full, decide_eq_true_eq] at hfull
    omega

lemma buffer_step_of_lt (g : Growth) {items : Vec τ} (h : items.size < items.capacity)
    (e : Event τ) :
    ∃ items', step g .buffer items e = some items' ∧ items'.capacity = items.capacity ∧
      items'.size < items.capacity := by
  cases e with
  | push item =>
    obtain ⟨items', hcall, hcapacity, hsize, -⟩ := buffer_call_of_lt g h item
    exact ⟨items', hcall, hcapacity, hsize⟩
  | reset => exact ⟨_, rfl, rfl, Nat.zero_lt_of_lt h⟩

lemma buffer_safe_of_pos (g : Growth) {n : ℕ} (hn : 1 ≤ n) (events : List (Event τ)) :
    Safe g .buffer n events := by
  refine Runs.always_of (I := fun items : Vec τ => items.capacity = n ∧ items.size < n) ?_ ?_
    events ⟨Vec.reserve_empty_capacity n, hn⟩
  · rintro items e ⟨hcapacity, hsize⟩
    have hroom : items.size < items.capacity := by omega
    obtain ⟨items', hstep, hcapacity', hsize'⟩ := buffer_step_of_lt g hroom e
    exact ⟨items', hstep, by omega, by omega⟩
  · rintro items ⟨-, hsize⟩
    exact hsize.le.trans (le_max_left _ _)

/-- `items_` of `buffer(0)`: no storage at all, or that of the first reallocation. -/
def Loose (g : Growth) (items : Vec τ) : Prop :=
  (items.size = 0 ∧ items.capacity = 0) ∨
    (items.size < items.capacity ∧ items.capacity = g.next 0)

lemma loose_push (g : Growth) {items : Vec τ} (h : Loose g items) (item : τ) :
    ∃ items', step g .buffer items (.push item) = some items' ∧ Loose g items' ∧
      items'.size = if g.next 0 ≤ items.size + 1 then 0 else items.size + 1 := by
  refine ⟨_, rfl, ?_⟩
  have hnext := g.lt_next 0
  have hcapacity : (items.pushBack g item).capacity = g.next 0 := by
    rcases h with ⟨hsize, hcap⟩ | ⟨hsize, hcap⟩
    · simp [Vec.pushBack, hsize, hcap]
    · rw [Vec.pushBack_capacity g hsize, hcap]
  have hsize := Vec.pushBack_size g items item
  by_cases hfull : g.next 0 ≤ items.size + 1
  · rw [if_pos (by simpa [Vec.full, hcapacity] using hfull), if_pos hfull]
    exact ⟨.inr ⟨hcapacity ▸ hnext, hcapacity⟩, rfl⟩
  · rw [if_neg (by simpa [Vec.full, hcapacity] using hfull), if_neg hfull]
    exact ⟨.inr ⟨by omega, hcapacity⟩, hsize⟩

lemma loose_clear (g : Growth) {items : Vec τ} (h : Loose g items) : Loose g items.clear := by
  rcases h with ⟨-, hcap⟩ | ⟨hsize, hcap⟩
  · exact .inl ⟨rfl, hcap⟩
  · exact .inr ⟨Nat.zero_lt_of_lt hsize, hcap⟩

lemma buffer_safe_of_next (g : Growth) (hg : g.next 0 ≤ 2) (events : List (Event τ)) :
    Safe g .buffer 0 events := by
  refine Runs.always_of (I := fun items : Vec τ => Loose g items) ?_ ?_ events
    (.inl ⟨rfl, rfl⟩)
  · intro items e h
    cases e with
    | push item =>
      obtain ⟨items', hstep, hloose, -⟩ := loose_push g h item
      exact ⟨items', hstep, hloose⟩
    | reset => exact ⟨_, rfl, loose_clear g h⟩
  · rintro items (⟨hsize, -⟩ | ⟨hsize, hcap⟩)
    · omega
    · omega

/-- With room for more than two items, a push right behind a push is one too many. -/
lemma buffer_safe_of_apart (g : Growth) (hg : 2 < g.next 0) {items : Vec τ}
    (h : Loose g items) {e : Event τ} (he : items.size = if e.isReset then 0 else 1)
    (events : List (Event τ)) :
    Runs.Always (step g .buffer) (fun items => items.size ≤ max 0 1) items events ↔
      (e :: events).IsChain Apart := by
  induction events generalizing items e with
  | nil =>
    rw [Runs.always_nil]
    refine iff_of_true ?_ (List.isChain_singleton e)
    rw [he]
    split_ifs <;> omega
  | cons f events ih =>
    have hle : items.size ≤ max 0 1 := by
      rw [he]
      split_ifs <;> omega
    rw [List.isChain_cons_cons]
    cases f with
    | reset =>
      have hreset : step g .buffer items (.reset : Event τ) = some items.clear := rfl
      rw [Runs.always_cons_some hreset, ih (loose_clear g h) (e := .reset) rfl]
      exact ⟨fun hall => ⟨.inr rfl, hall.2⟩, fun hall => ⟨hle, hall.2⟩⟩
    | push item =>
      obtain ⟨items', hstep, hloose, hsize⟩ := loose_push g h item
      rw [if_neg (by omega)] at hsize
      rw [Runs.always_cons_some hstep]
      cases e with
      | reset =>
        rw [ih hloose (e := .push item) (by rw [hsize, he]; rfl)]
        exact ⟨fun hall => ⟨.inl rfl, hall.2⟩, fun hall => ⟨hle, hall.2⟩⟩
      | push item₀ =>
        refine iff_of_false ?_ ?_
        · rintro ⟨-, halways⟩
          have hlast : items'.size ≤ max 0 1 := halways.head
          have hone : items.size = 1 := he
          omega
        · rintro ⟨hapart, -⟩
          rcases hapart with hpush | hpush <;> cases hpush

/-- A window that has storage never erases from an empty vector. -/
lemma window_safe_of_pos (g : Growth) {n : ℕ} (hn : 1 ≤ n) (events : List (Event τ)) :
    Safe g .window n events := by
  refine Runs.always_of (I := fun items : Vec τ => items.capacity = n ∧ items.size ≤ n) ?_ ?_
    events ⟨Vec.reserve_empty_capacity n, Nat.zero_le n⟩
  · rintro items e ⟨hcapacity, hsize⟩
    cases e with
    | push item =>
      by_cases hfull : items.full = true
      · have hn' : n ≤ items.size := by simpa [Vec.full, hcapacity] using hfull
        have hne : items.items.isEmpty = false := by
          rw [List.isEmpty_eq_false_iff, ← List.length_pos_iff]
          exact hn.trans hn'
        have hroom : items.eraseBegin.size < items.eraseBegin.capacity := by
          show items.items.tail.length < items.capacity
          rw [List.length_tail, hcapacity]
          have : items.items.length ≤ n := hsize
          omega
        refine ⟨windowAccept g items item, by simp [step, call, hne], ?_⟩
        rw [windowAccept, if_pos hfull, Vec.pushBack_capacity g hroom, Vec.pushBack_size]
        rw [Vec.eraseBegin_capacity] at hroom ⊢
        omega
      · have hroom : items.size < items.capacity := by
          simpa [Vec.full, Nat.not_le] using hfull
        refine ⟨windowAccept g items item, by simp [step, call, hfull], ?_⟩
        rw [windowAccept, if_neg hfull, Vec.pushBack_capacity g hroom, Vec.pushBack_size]
        omega
    | reset => exact ⟨_, rfl, hcapacity, Nat.zero_le n⟩
  · rintro items ⟨-, hsize⟩
    exact hsize.trans (le_max_left _ _)

/-- A window without storage does not survive a push. -/
lemma window_safe_zero (g : Growth) {items : Vec τ} (hsize : items.size = 0)
    (hcapacity : items.capacity = 0) (events : List (Event τ)) :
    Runs.Always (step g .window) (fun items => items.size ≤ max 0 1) items events ↔
      ∀ e ∈ events, e.isReset = true := by
  induction events generalizing items with
  | nil =>
    rw [Runs.always_nil]
    exact iff_of_true (by omega) (by simp)
  | cons e events ih =>
    rw [List.forall_mem_cons]
    cases e with
    | push item =>
      have hempty : items.items = [] := List.length_eq_zero_iff.mp hsize
      have hstuck : step g .window items (.push item) = none := by
        simp [step, call, Vec.full, hempty, hcapacity]
      refine iff_of_false (Runs.not_always_cons_none hstuck) ?_
      rintro ⟨hreset, -⟩
      cases hreset
    | reset =>
      have hreset : step g .window items (.reset : Event τ) = some items.clear := rfl
      have hclear : items.clear.size = 0 := rfl
      rw [Runs.always_cons_some hreset, ih hclear hcapacity]
      exact ⟨fun hall => ⟨rfl, hall.2⟩, fun hall => ⟨by omega, hall.2⟩⟩

/-- When the limits are safe: always for a size of at least one. A buffer of size zero may
need that no push follows a push, unless its first reallocation makes room for at most two
items; a window of size zero takes no push at all. -/
theorem safe_iff (g : Growth) (n : ℕ) (events : List (Event τ)) :
    (Safe g .buffer n events ↔ 1 ≤ n ∨ g.next 0 ≤ 2 ∨ events.IsChain Apart) ∧
      (Safe g .window n events ↔ 1 ≤ n ∨ ∀ e ∈ events, e.isReset = true) := by
  rcases Nat.eq_zero_or_pos n with rfl | hn
  · refine ⟨?_, ?_⟩
    · by_cases hg : g.next 0 ≤ 2
      · exact iff_of_true (buffer_safe_of_next g hg events) (.inr (.inl hg))
      · have hloose : Loose g (Vec.empty.reserve 0 : Vec τ) := .inl ⟨rfl, rfl⟩
        have hchain := buffer_safe_of_apart g (by omega) hloose (e := .reset) rfl events
        refine hchain.trans ⟨fun h => .inr (.inr ?_), ?_⟩
        · exact h.tail
        · rintro (h | h | h)
          · omega
          · exact absurd h hg
          · cases events with
            | nil => exact List.isChain_singleton _
            | cons e events => exact List.isChain_cons_cons.mpr ⟨.inl rfl, h⟩
    · refine (window_safe_zero g rfl (Vec.reserve_empty_capacity 0) events).trans ?_
      exact ⟨.inr, fun h => h.resolve_left (by omega)⟩
  · exact ⟨iff_of_true (buffer_safe_of_pos g hn events) (.inl hn),
      iff_of_true (window_safe_of_pos g hn events) (.inl hn)⟩

/-- The first push into `window(0)` erases from an empty vector. -/
theorem window_zero_not_safe :
    Runs.run (step doubling .window) (Vec.empty.reserve 0) [.push 1] = none ∧
      ¬ Safe doubling .window 0 [.push 1] := by
  have hstuck :
      Runs.run (step doubling .window) (Vec.empty.reserve 0) [Event.push 1] = none := rfl
  refine ⟨hstuck, ?_⟩
  intro h
  obtain ⟨items, hitems, -⟩ := h _ List.prefix_rfl
  rw [hstuck] at hitems
  cases hitems

end Sized

end CppMisc.Stream
