import Mathlib

/-! `Array`, `Buffer` and `BufferPool` of `CompletionPort.hh`. Addresses count from the
start of `region_`. A `Buffer` is a header with an array of the rest of its slot. -/
namespace CppMisc.Watch

/-- What the platform says about a `Buffer`: the size of `OVERLAPPED` and of `size_t`. -/
structure Layout where
  overlapped : ℕ
  sizeT : ℕ
  int_le : 4 ≤ sizeT

namespace Layout

def x64 : Layout := ⟨32, 8, by norm_num⟩

/-- `offsetof(Buffer, data.values)`, behind `overlapped` and `data.size`; the flexible
array takes no room in the structure, so this is `sizeof(Buffer)` as well. -/
def sizeofBuffer (L : Layout) : ℕ := L.overlapped + L.sizeT

def sizeSub (L : Layout) (a b : ℕ) : ℕ := (a + 256 ^ L.sizeT - b) % 256 ^ L.sizeT

lemma int_lt (L : Layout) : 2 ^ 31 < 256 ^ L.sizeT :=
  lt_of_lt_of_le (by norm_num) (Nat.pow_le_pow_right (by norm_num) L.int_le)

lemma sizeSub_eq (L : Layout) {a b : ℕ} (hb : b ≤ a) (ha : a < 256 ^ L.sizeT) :
    L.sizeSub a b = a - b := by
  have hsum : a + 256 ^ L.sizeT - b = a - b + 256 ^ L.sizeT := by omega
  rw [sizeSub, hsum, Nat.add_mod_right]
  exact Nat.mod_eq_of_lt (by omega)

end Layout

structure BufferPool where
  /-- `size_`, the length of the region. -/
  size : ℕ
  /-- The back of the vector is the end of the list. -/
  freeList : List ℕ
  /-- `data.size` in the header at an address. -/
  dataSize : ℕ → ℕ

namespace BufferPool

def slots (size num : ℕ) : List ℕ := (List.range num).map fun i => size * i

def new (L : Layout) (size num : ℕ) : BufferPool where
  size := size * num
  freeList := slots size num
  dataSize b := if b ∈ slots size num then L.sizeSub size L.sizeofBuffer else 0

def giveBack (pool : BufferPool) (b : ℕ) : BufferPool :=
  { pool with freeList := pool.freeList ++ [b] }

/-- `alloc` on a free list that is not empty: the pointer, and the pool without it. -/
def alloc (pool : BufferPool) : Option (ℕ × BufferPool) :=
  pool.freeList.getLast?.map fun b => (b, { pool with freeList := pool.freeList.dropLast })

def bufferEnd (L : Layout) (pool : BufferPool) (b : ℕ) : ℕ :=
  b + L.sizeofBuffer + pool.dataSize b

lemma mem_slots {size num b : ℕ} : b ∈ slots size num ↔ ∃ i < num, size * i = b := by
  simp [slots]

lemma slots_nodup {size : ℕ} (num : ℕ) (h : 0 < size) : (slots size num).Nodup :=
  List.nodup_range.map fun _ _ => Nat.eq_of_mul_eq_mul_left h

lemma slot_end (L : Layout) {size num b : ℕ} (hsize : L.sizeofBuffer ≤ size)
    (hint : size * num < 2 ^ 31) (hb : b ∈ slots size num) :
    (new L size num).bufferEnd L b = b + size := by
  obtain ⟨i, hi, rfl⟩ := mem_slots.mp hb
  have hle : size ≤ size * num := Nat.le_mul_of_pos_right size (by omega)
  have hword := L.int_lt
  have hdata : (new L size num).dataSize (size * i) = size - L.sizeofBuffer := by
    simp only [new, if_pos hb]
    exact L.sizeSub_eq hsize (by omega)
  rw [bufferEnd, hdata]
  omega

/-- Two slots do not share a byte, and none reaches out of the region. -/
lemma slot_apart {size num b b' : ℕ} (hb : b ∈ slots size num) (hb' : b' ∈ slots size num)
    (hne : b ≠ b') : b + size ≤ b' ∨ b' + size ≤ b := by
  obtain ⟨i, -, rfl⟩ := mem_slots.mp hb
  obtain ⟨j, -, rfl⟩ := mem_slots.mp hb'
  rcases Nat.lt_trichotomy i j with hij | hij | hij
  · exact .inl (Nat.mul_le_mul_left size hij)
  · exact absurd (congrArg (size * ·) hij) hne
  · exact .inr (Nat.mul_le_mul_left size hij)

lemma slot_inside {size num b : ℕ} (hb : b ∈ slots size num) : b + size ≤ size * num := by
  obtain ⟨i, hi, rfl⟩ := mem_slots.mp hb
  exact Nat.mul_le_mul_left size hi

end BufferPool

end CppMisc.Watch
