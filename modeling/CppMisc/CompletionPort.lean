import CppMisc.BufferPool
import CppMisc.Runs

/-! `CompletionPort` of `CompletionPort.hh` with its pool and the part of the kernel that
it talks to. A buffer is free, owned by a live `BufferPtr`, or with the kernel, in an
operation that is in progress or in a packet that is queued. -/
namespace CppMisc.Watch
open Runs

/-- A queued packet; `failed` where it reports an operation that did not succeed. -/
structure Packet where
  overlapped : ℕ
  numOfBytes : UInt32
  data : UInt64
  failed : Bool
  deriving DecidableEq, Repr

structure Completion where
  buffer : ℕ
  data : UInt64
  numOfBytes : UInt32
  deriving DecidableEq, Repr

structure Port where
  pool : BufferPool
  /-- The pointers of the live `BufferPtr`s. -/
  owned : List ℕ
  inProgress : List ℕ
  queued : List Packet

inductive Event
  | buffer
  | drop (b : ℕ)
  | start (b : ℕ) (success : Bool)
  | finish (packet : Packet)
  | post (completion : Completion) (success : Bool)
  | get (dequeued : Option Packet)
  deriving DecidableEq, Repr

namespace Port

/-- `CompletionPort()`, with the numbers that it gives to its pool as parameters. -/
def new (L : Layout) (size num : ℕ) : Port := ⟨BufferPool.new L size num, [], [], []⟩

def buffer (s : Port) : Option (ℕ × Port) :=
  s.pool.alloc.map fun r => (r.1, { s with pool := r.2, owned := s.owned ++ [r.1] })

def drop (s : Port) (b : ℕ) : Port :=
  { s with pool := s.pool.giveBack b, owned := s.owned.erase b }

/-- `pollInternal2` from the system call on: it releases the pointer, or throws and so
destroys it. -/
def start (s : Port) (b : ℕ) (success : Bool) : Port :=
  if success then
    { s with owned := s.owned.erase b, inProgress := s.inProgress ++ [b] }
  else s.drop b

def finish (s : Port) (packet : Packet) : Port :=
  { s with
    inProgress := s.inProgress.erase packet.overlapped
    queued := s.queued ++ [packet] }

/-- `post`: where the call fails it throws, and the caller keeps the pointer. -/
def post (s : Port) (completion : Completion) (success : Bool) : Port :=
  if success then
    { s with
      owned := s.owned.erase completion.buffer
      queued := s.queued ++
        [⟨completion.buffer, completion.numOfBytes, completion.data, false⟩] }
  else s

/-- `get`: the state after it, and the completion unless it throws. The call fails without
a packet, or with the packet of a failed operation, which it has dequeued by then. -/
def get (s : Port) (dequeued : Option Packet) : Port × Option Completion :=
  match dequeued with
  | none => (s, none)
  | some packet =>
    let s := { s with queued := s.queued.erase packet }
    if packet.failed then (s, none)
    else
      ({ s with owned := s.owned ++ [packet.overlapped] },
        some ⟨packet.overlapped, packet.data, packet.numOfBytes⟩)

/-- Only live pointers are used, operations that are in progress finish, and what is
queued is handed back, each packet once. -/
def step (s : Port) : Event → Option Port
  | .buffer => s.buffer.map Prod.snd
  | .drop b => if b ∈ s.owned then some (s.drop b) else none
  | .start b success => if b ∈ s.owned then some (s.start b success) else none
  | .finish packet =>
      if packet.overlapped ∈ s.inProgress then some (s.finish packet) else none
  | .post completion success =>
      if completion.buffer ∈ s.owned then some (s.post completion success) else none
  | .get none => some (s.get none).1
  | .get (some packet) => if packet ∈ s.queued then some (s.get (some packet)).1 else none

def inKernel (s : Port) : List ℕ := s.inProgress ++ s.queued.map Packet.overlapped

def places (s : Port) : List ℕ := s.pool.freeList ++ s.owned ++ s.inKernel

lemma count_erase_add {α : Type*} [DecidableEq α] {xs : List α} {x : α} (h : x ∈ xs) (y : α) :
    xs.count y = (xs.erase x).count y + [x].count y := by
  rw [(List.perm_cons_erase h).count_eq y, List.count_cons, List.count_singleton]

lemma drop_places {s : Port} {b : ℕ} (h : b ∈ s.owned) : (s.drop b).places.Perm s.places := by
  rw [List.perm_iff_count]
  intro x
  have howned := count_erase_add h x
  simp only [places, inKernel, drop, BufferPool.giveBack, List.count_append]
  omega

lemma start_places {s : Port} {b : ℕ} (h : b ∈ s.owned) (success : Bool) :
    (s.start b success).places.Perm s.places := by
  cases success with
  | false => exact drop_places h
  | true =>
    rw [List.perm_iff_count]
    intro x
    have howned := count_erase_add h x
    simp only [places, inKernel, start, if_true, List.count_append]
    omega

lemma finish_places {s : Port} {packet : Packet} (h : packet.overlapped ∈ s.inProgress) :
    (s.finish packet).places.Perm s.places := by
  rw [List.perm_iff_count]
  intro x
  have hprogress := count_erase_add h x
  simp only [places, inKernel, finish, List.map_append, List.map_singleton, List.count_append]
  omega

lemma post_places {s : Port} {completion : Completion} (h : completion.buffer ∈ s.owned)
    (success : Bool) : (s.post completion success).places.Perm s.places := by
  cases success with
  | false => exact List.Perm.refl _
  | true =>
    rw [List.perm_iff_count]
    intro x
    have howned := count_erase_add h x
    simp only [places, inKernel, post, if_true, List.map_append, List.map_singleton,
      List.count_append]
    omega

lemma get_places {s : Port} {packet : Packet} (h : packet ∈ s.queued) :
    s.places.Perm (if packet.failed then packet.overlapped :: (s.get (some packet)).1.places
      else (s.get (some packet)).1.places) := by
  have hqueued := (List.perm_cons_erase h).map Packet.overlapped
  rw [List.perm_iff_count]
  intro x
  have hcount := hqueued.count_eq x
  rw [List.map_cons, List.count_cons] at hcount
  cases hf : packet.failed with
  | true =>
    simp only [places, inKernel, get, hf, if_true, List.count_append, List.count_cons] at hcount ⊢
    omega
  | false =>
    simp only [places, inKernel, get, hf, Bool.false_eq_true, if_false, List.count_append,
      List.count_singleton] at hcount ⊢
    omega

lemma buffer_places {s s' : Port} {b : ℕ} (h : s.buffer = some (b, s')) :
    s'.places.Perm s.places := by
  obtain ⟨r, halloc, hr⟩ := Option.map_eq_some_iff.mp h
  obtain ⟨c, hlast, rfl⟩ := Option.map_eq_some_iff.mp halloc
  cases hr
  have hfree : s.pool.freeList = s.pool.freeList.dropLast ++ [c] :=
    (List.dropLast_append_getLast? c hlast).symm
  rw [List.perm_iff_count]
  intro x
  have hcount := congrArg (List.count x) hfree
  simp only [places, inKernel, List.count_append] at hcount ⊢
  omega

end Port

/-- The call fails although it has dequeued a packet. -/
def Event.loses : Event → Bool
  | .get (some packet) => packet.failed
  | _ => false

namespace Port

/-- A step moves buffers from one place to another, or one of them is in no place after it;
the headers stay as the constructor has written them. -/
lemma step_spec {s s' : Port} {e : Event} (h : s.step e = some s') :
    (if e.loses then ∃ b, s.places.Perm (b :: s'.places) else s'.places.Perm s.places) ∧
      s'.pool.dataSize = s.pool.dataSize ∧ s'.pool.size = s.pool.size := by
  cases e with
  | buffer =>
    obtain ⟨r, hr, rfl⟩ := Option.map_eq_some_iff.mp h
    refine ⟨buffer_places hr, ?_⟩
    obtain ⟨q, halloc, rfl⟩ := Option.map_eq_some_iff.mp hr
    obtain ⟨c, -, rfl⟩ := Option.map_eq_some_iff.mp halloc
    exact ⟨rfl, rfl⟩
  | drop b =>
    obtain ⟨hb, hs⟩ := Option.ite_none_right_eq_some.mp h
    cases hs
    exact ⟨drop_places hb, rfl, rfl⟩
  | start b success =>
    obtain ⟨hb, hs⟩ := Option.ite_none_right_eq_some.mp h
    cases hs
    refine ⟨start_places hb success, ?_⟩
    cases success <;> exact ⟨rfl, rfl⟩
  | finish packet =>
    obtain ⟨hb, hs⟩ := Option.ite_none_right_eq_some.mp h
    cases hs
    exact ⟨finish_places hb, rfl, rfl⟩
  | post completion success =>
    obtain ⟨hb, hs⟩ := Option.ite_none_right_eq_some.mp h
    cases hs
    refine ⟨post_places hb success, ?_⟩
    cases success <;> exact ⟨rfl, rfl⟩
  | get dequeued =>
    cases dequeued with
    | none =>
      cases h
      exact ⟨List.Perm.refl _, rfl, rfl⟩
    | some packet =>
      obtain ⟨hb, hs⟩ := Option.ite_none_right_eq_some.mp h
      cases hs
      have hget := get_places hb
      cases hf : packet.failed with
      | true =>
        rw [hf] at hget
        simp only [Event.loses, hf, if_true]
        exact ⟨⟨_, hget⟩, by simp [get, hf]⟩
      | false =>
        rw [hf] at hget
        simp only [Event.loses, hf]
        exact ⟨hget.symm, by simp [get, hf]⟩

structure Inv (L : Layout) (size num : ℕ) (s : Port) : Prop where
  nodup : s.places.Nodup
  slot : ∀ b ∈ s.places, b ∈ BufferPool.slots size num
  dataSize : s.pool.dataSize = (BufferPool.new L size num).dataSize
  region : s.pool.size = size * num

variable {L : Layout} {size num : ℕ}

lemma inv_new (hsize : 0 < size) : Inv L size num (new L size num) where
  nodup := by
    simpa [places, inKernel, new, BufferPool.new] using BufferPool.slots_nodup num hsize
  slot b hb := by simpa [places, inKernel, new, BufferPool.new] using hb
  dataSize := rfl
  region := rfl

lemma inv_step {s s' : Port} {e : Event} (hi : Inv L size num s) (h : s.step e = some s') :
    Inv L size num s' := by
  obtain ⟨hplaces, hdata, hregion⟩ := step_spec h
  split_ifs at hplaces with hloses
  · obtain ⟨b, hperm⟩ := hplaces
    refine ⟨?_, ?_, hdata.trans hi.dataSize, hregion.trans hi.region⟩
    · exact (List.nodup_cons.mp (hperm.nodup_iff.mp hi.nodup)).2
    · intro c hc
      exact hi.slot c (hperm.mem_iff.mpr (List.mem_cons_of_mem b hc))
  · refine ⟨?_, ?_, hdata.trans hi.dataSize, hregion.trans hi.region⟩
    · exact hplaces.nodup_iff.mpr hi.nodup
    · intro c hc
      exact hi.slot c (hplaces.mem_iff.mp hc)

/-- Each buffer of the pool is free, owned, or with the kernel. -/
def Accounted (size num : ℕ) (s : Port) : Prop :=
  ∀ b ∈ BufferPool.slots size num, b ∈ s.pool.freeList ∨ b ∈ s.owned ∨ b ∈ s.inKernel

lemma accounted_iff {s : Port} :
    Accounted size num s ↔ ∀ b ∈ BufferPool.slots size num, b ∈ s.places := by
  simp only [Accounted, places, List.mem_append, or_assoc]

lemma accounted_step {s s' : Port} {e : Event} (hi : Inv L size num s)
    (ha : Accounted size num s) (h : s.step e = some s') :
    Accounted size num s' ↔ e.loses = false := by
  obtain ⟨hplaces, -, -⟩ := step_spec h
  rw [accounted_iff] at ha ⊢
  cases hloses : e.loses with
  | true =>
    rw [hloses, if_pos rfl] at hplaces
    obtain ⟨b, hperm⟩ := hplaces
    -- the buffer of the packet is in no place any more
    have hgone := (List.nodup_cons.mp (hperm.nodup_iff.mp hi.nodup)).1
    have hslot := hi.slot b (hperm.mem_iff.mpr List.mem_cons_self)
    constructor
    · intro hall
      exact absurd (hall b hslot) hgone
    · intro hfalse
      cases hfalse
  | false =>
    rw [hloses] at hplaces
    constructor
    · intro _
      rfl
    · intro _ b hb
      exact hplaces.mem_iff.mpr (ha b hb)

end Port

/-- When all buffers are accounted for. In every state of a run each of them is free, owned
or with the kernel exactly if no `get` of the run fails after it has dequeued a packet. -/
theorem port_accounted_iff (L : Layout) {size : ℕ} (hsize : 0 < size) (num : ℕ)
    (es : List Event) :
    Throughout Port.step (Port.Accounted size num) (Port.new L size num) es ↔
      Along Port.step (fun _ e => e.loses = false) (Port.new L size num) es := by
  refine throughout_iff_along (I := Port.Inv L size num) ?_ ?_ (Port.inv_new hsize) ?_
  · intro s e s' hi h
    exact Port.inv_step hi h
  · intro s e s' hi ha h
    exact Port.accounted_step hi ha h
  · intro b hb
    exact .inl hb

/-- A round of the watch loop in which the change notification succeeds. -/
theorem port_accounted_round :
    Throughout Port.step (Port.Accounted 2048 2000) (Port.new .x64 2048 2000)
      [.buffer, .start 4093952 true, .finish ⟨4093952, 64, 0, false⟩,
        .get (some ⟨4093952, 64, 0, false⟩), .drop 4093952] := by
  rw [port_accounted_iff .x64 (by norm_num) 2000]
  simp [Along, Event.loses]

lemma slots_succ (size num : ℕ) :
    BufferPool.slots size (num + 1) = BufferPool.slots size num ++ [size * num] := by
  rw [BufferPool.slots, List.range_succ, List.map_append]
  rfl

lemma run_failed_operation (L : Layout) (size num : ℕ) :
    ∃ s, run Port.step (Port.new L size (num + 1))
        [.buffer, .start (size * num) true, .finish ⟨size * num, 0, 0, true⟩,
          .get (some ⟨size * num, 0, 0, true⟩)] = some s ∧
      s.places = BufferPool.slots size num := by
  have hbuffer : (Port.new L size (num + 1)).buffer =
      some (size * num, ⟨{ BufferPool.new L size (num + 1) with
        freeList := BufferPool.slots size num }, [size * num], [], []⟩) := by
    simp [Port.buffer, BufferPool.alloc, Port.new, BufferPool.new, slots_succ]
  simp [Port.step, hbuffer, Port.start, Port.finish, Port.get, Port.places, Port.inKernel]

/-- The port of `wmain` when its first change notification fails: the buffer is nowhere. -/
theorem port_not_accounted :
    ¬ Throughout Port.step (Port.Accounted 2048 2000) (Port.new .x64 2048 2000)
      [.buffer, .start 4093952 true, .finish ⟨4093952, 0, 0, true⟩,
        .get (some ⟨4093952, 0, 0, true⟩)] := by
  intro hall
  obtain ⟨s, hs, hplaces⟩ := run_failed_operation .x64 2048 1999
  have hlast := throughout_iff_prefix.mp hall _ List.prefix_rfl s hs
  rw [Port.accounted_iff, hplaces] at hlast
  have hmem := hlast (2048 * 1999) (BufferPool.mem_slots.mpr ⟨1999, by norm_num, rfl⟩)
  obtain ⟨i, hi, heq⟩ := BufferPool.mem_slots.mp hmem
  omega

/-- No buffer has two users. In every state that a run leads to, no buffer is in the free
list twice, in two of the places, or owned twice, and the bytes of two buffers do not
overlap and lie in the region. -/
theorem buffers_apart (L : Layout) (size num : ℕ) (hsize : L.sizeofBuffer ≤ size)
    (hint : size * num < 2 ^ 31) (es : List Event) (s : Port)
    (hs : run Port.step (Port.new L size num) es = some s) :
    s.pool.freeList.Nodup ∧ s.owned.Nodup ∧
      (∀ b ∈ s.pool.freeList, b ∉ s.owned ∧ b ∉ s.inKernel) ∧ (∀ b ∈ s.owned, b ∉ s.inKernel) ∧
      (∀ b ∈ s.places, b ∈ BufferPool.slots size num) ∧
      (∀ b ∈ BufferPool.slots size num, s.pool.bufferEnd L b ≤ s.pool.size) ∧
      ∀ b ∈ BufferPool.slots size num, ∀ b' ∈ BufferPool.slots size num, b ≠ b' →
        s.pool.bufferEnd L b ≤ b' ∨ s.pool.bufferEnd L b' ≤ b := by
  have hpos : 0 < size := by
    have := L.int_le
    rw [Layout.sizeofBuffer] at hsize
    omega
  have hinv : Port.Inv L size num s :=
    run_invariant (fun _ _ _ hi h => Port.inv_step hi h) hs (Port.inv_new hpos)
  have hend : ∀ b ∈ BufferPool.slots size num, s.pool.bufferEnd L b = b + size := by
    intro b hb
    rw [BufferPool.bufferEnd, hinv.dataSize]
    exact BufferPool.slot_end L hsize hint hb
  obtain ⟨huser, hkernel, hdisjoint⟩ := List.nodup_append.mp hinv.nodup
  obtain ⟨hfree, howned, hapart⟩ := List.nodup_append.mp huser
  refine ⟨hfree, howned, ?_, ?_, hinv.slot, ?_, ?_⟩
  · intro b hb
    exact ⟨fun hb' => hapart b hb b hb' rfl,
      fun hb' => hdisjoint b (List.mem_append_left _ hb) b hb' rfl⟩
  · intro b hb hb'
    exact hdisjoint b (List.mem_append_right _ hb) b hb' rfl
  · intro b hb
    rw [hend b hb, hinv.region]
    exact BufferPool.slot_inside hb
  · intro b hb b' hb' hne
    rw [hend b hb, hend b' hb']
    exact BufferPool.slot_apart hb hb' hne

/-- A pool of three slots, one buffer of which is posted and taken back. -/
theorem buffers_apart_posted :
    ∃ s, run Port.step (Port.new .x64 64 3)
        [.buffer, .buffer, .post ⟨64, 0, 0⟩ true, .get (some ⟨64, 0, 0, false⟩)] = some s ∧
      s.owned.Nodup := by
  refine ⟨_, rfl, ?_⟩
  exact (buffers_apart .x64 64 3 (by decide) (by norm_num) [.buffer, .buffer, .post ⟨64, 0, 0⟩ true,
    .get (some ⟨64, 0, 0, false⟩)] _ rfl).2.1

end CppMisc.Watch
