import Mathlib

/-! `std::vector` as the stages of `stream4.cc` use it: the items in order together
with `capacity()`, which is what `Buffer` and `Window` compare `size()` with. -/
namespace CppMisc.Stream

/-- The capacity that `push_back` on a full vector reallocates to. The standard only
says that the new capacity holds the new item. -/
structure Growth where
  next : ℕ → ℕ
  lt_next : ∀ n, n < next n

def doubling : Growth := ⟨fun n => 2 * n + 1, fun n => by omega⟩

structure Vec (τ : Type*) where
  items : List τ
  capacity : ℕ
  size_le : items.length ≤ capacity

namespace Vec

variable {τ : Type*}

@[ext] lemma ext {v w : Vec τ} (hi : v.items = w.items) (hc : v.capacity = w.capacity) :
    v = w := by
  cases v; cases w; simp_all

def size (v : Vec τ) : ℕ := v.items.length

def empty : Vec τ := ⟨[], 0, le_rfl⟩

/-- `reserve(n)`, with a capacity of exactly `n` where it has to grow. -/
def reserve (v : Vec τ) (n : ℕ) : Vec τ :=
  ⟨v.items, max v.capacity n, v.size_le.trans (le_max_left _ _)⟩

def pushBack (g : Growth) (v : Vec τ) (item : τ) : Vec τ :=
  if h : v.size < v.capacity then
    ⟨v.items ++ [item], v.capacity, by simpa [size] using Nat.succ_le_of_lt h⟩
  else
    ⟨v.items ++ [item], g.next v.capacity, by
      have := v.size_le
      have := g.lt_next v.capacity
      simp only [List.length_append, List.length_singleton]
      omega⟩

def clear (v : Vec τ) : Vec τ := ⟨[], v.capacity, Nat.zero_le _⟩

/-- `items_.size() >= items_.capacity()` -/
def full (v : Vec τ) : Bool := v.capacity ≤ v.size

def eraseBegin (v : Vec τ) : Vec τ :=
  ⟨v.items.tail, v.capacity, by
    have := v.size_le
    simp only [List.length_tail]
    omega⟩

/-- What the move constructor builds: it takes over the storage of its argument. -/
def moved (v : Vec τ) : Vec τ := ⟨v.items, v.capacity, v.size_le⟩

@[simp] lemma reserve_empty_capacity (n : ℕ) : ((empty : Vec τ).reserve n).capacity = n := by
  simp [reserve, empty]

@[simp] lemma clear_capacity (v : Vec τ) : v.clear.capacity = v.capacity := rfl

@[simp] lemma eraseBegin_capacity (v : Vec τ) : v.eraseBegin.capacity = v.capacity := rfl

@[simp] lemma moved_eq (v : Vec τ) : v.moved = v := rfl

@[simp] lemma pushBack_items (g : Growth) (v : Vec τ) (item : τ) :
    (v.pushBack g item).items = v.items ++ [item] := by
  unfold pushBack
  split <;> rfl

@[simp] lemma pushBack_size (g : Growth) (v : Vec τ) (item : τ) :
    (v.pushBack g item).size = v.size + 1 := by
  simp [size]

lemma pushBack_capacity (g : Growth) {v : Vec τ} (h : v.size < v.capacity) (item : τ) :
    (v.pushBack g item).capacity = v.capacity := by
  simp [pushBack, h]

end Vec

end CppMisc.Stream
