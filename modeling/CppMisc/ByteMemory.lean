import Mathlib

/-! Little-endian numbers in a byte memory: what is read from a range of addresses, and
what is read back where the bytes of a number have been laid down. -/
namespace CppMisc.ByteMemory

def readNat (mem : ℕ → UInt8) : ℕ → ℕ → ℕ
  | _, 0 => 0
  | p, k + 1 => (mem p).toNat + 256 * readNat mem (p + 1) k

/-- The lowest `k` bytes of a number. -/
def bytesOf : ℕ → ℕ → List UInt8
  | 0, _ => []
  | k + 1, v => UInt8.ofNat v :: bytesOf k (v / 256)

/-- The bytes lie in memory from `p` on. -/
def Holds (mem : ℕ → UInt8) (p : ℕ) (bytes : List UInt8) : Prop :=
  ∀ i b, bytes[i]? = some b → mem (p + i) = b

variable {mem : ℕ → UInt8}

@[simp] lemma bytesOf_length (k v : ℕ) : (bytesOf k v).length = k := by
  induction k generalizing v with
  | zero => rfl
  | succ k ih => rw [bytesOf, List.length_cons, ih]

lemma Holds.append {p : ℕ} {xs ys : List UInt8} :
    Holds mem p (xs ++ ys) ↔ Holds mem p xs ∧ Holds mem (p + xs.length) ys := by
  constructor
  · intro h
    refine ⟨?_, ?_⟩
    · intro i b hb
      apply h
      rw [List.getElem?_append_left (List.getElem?_eq_some_iff.mp hb).1, hb]
    · intro i b hb
      rw [Nat.add_assoc]
      apply h
      rw [List.getElem?_append_right (Nat.le_add_right _ _), Nat.add_sub_cancel_left, hb]
  · rintro ⟨hx, hy⟩ i b hb
    rcases Nat.lt_or_ge i xs.length with hi | hi
    · rw [List.getElem?_append_left hi] at hb
      exact hx i b hb
    · rw [List.getElem?_append_right hi] at hb
      have hmem := hy (i - xs.length) b hb
      rwa [Nat.add_assoc, Nat.add_sub_cancel' hi] at hmem

lemma Holds.readNat {p k v : ℕ} (h : Holds mem p (bytesOf k v)) (hv : v < 256 ^ k) :
    ByteMemory.readNat mem p k = v := by
  induction k generalizing p v with
  | zero =>
    have hzero : v = 0 := by simpa using hv
    rw [hzero, ByteMemory.readNat]
  | succ k ih =>
    have hsplit : bytesOf (k + 1) v = [UInt8.ofNat v] ++ bytesOf k (v / 256) := rfl
    rw [hsplit, Holds.append] at h
    obtain ⟨hhead, htail⟩ := h
    have hlow : mem p = UInt8.ofNat v := hhead 0 _ rfl
    have hrest : ByteMemory.readNat mem (p + 1) k = v / 256 :=
      ih htail (by rw [Nat.pow_succ'] at hv; omega)
    rw [ByteMemory.readNat, hlow, hrest, UInt8.toNat_ofNat']
    omega

/-- What is read depends on the bytes of the range only. -/
lemma readNat_congr {mem' : ℕ → UInt8} {p q k : ℕ} (h : ∀ i < k, mem (p + i) = mem' (q + i)) :
    readNat mem p k = readNat mem' q k := by
  induction k generalizing p q with
  | zero => rfl
  | succ k ih =>
    have hhead : mem p = mem' q := h 0 (Nat.zero_lt_succ k)
    have htail : readNat mem (p + 1) k = readNat mem' (q + 1) k := by
      apply ih
      intro i hi
      rw [Nat.add_right_comm, Nat.add_assoc, Nat.add_right_comm q, Nat.add_assoc q]
      exact h (i + 1) (by omega)
    rw [readNat, readNat, hhead, htail]

/-- The memory after the bytes have been written from `p` on. -/
def writeBytes (mem : ℕ → UInt8) (p : ℕ) (bytes : List UInt8) (a : ℕ) : UInt8 :=
  if p ≤ a ∧ a < p + bytes.length then bytes.getD (a - p) 0 else mem a

lemma writeBytes_nil (mem : ℕ → UInt8) (p : ℕ) : writeBytes mem p [] = mem := by
  funext a
  rw [writeBytes, if_neg]
  rw [List.length_nil]
  omega

lemma holds_writeBytes (mem : ℕ → UInt8) (p : ℕ) (bytes : List UInt8) :
    Holds (writeBytes mem p bytes) p bytes := by
  intro i b hb
  have hi := (List.getElem?_eq_some_iff.mp hb).1
  rw [writeBytes, if_pos ⟨Nat.le_add_right p i, by omega⟩, Nat.add_sub_cancel_left]
  simp [hb]

/-- A list as memory, with zeros behind it. -/
def ofBytes (bytes : List UInt8) (p : ℕ) : UInt8 := bytes.getD p 0

lemma holds_ofBytes (bytes : List UInt8) : Holds (ofBytes bytes) 0 bytes := by
  intro i b hb
  simp [ofBytes, hb]

lemma Holds.ofBytes {p : ℕ} {bytes : List UInt8} (h : Holds mem p bytes) {i : ℕ}
    (hi : i < bytes.length) : mem (p + i) = ByteMemory.ofBytes bytes i := by
  rw [h i bytes[i] (List.getElem?_eq_getElem hi)]
  simp [ByteMemory.ofBytes, hi]

end CppMisc.ByteMemory
