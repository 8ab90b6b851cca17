import CppMisc.CompletionPort
import CppMisc.NotifyEvents

/-! The loop of `wmain` in `Main.cc`: a change notification is started in a buffer of the
pool, the kernel completes it there, and the events are read from the buffer. The number
of bytes that the completion carries is not looked at. -/
namespace CppMisc.Watch
open ByteMemory

/-- What a completed operation has delivered, and the key that it comes with. -/
structure Notification where
  bytes : List UInt8
  data : UInt64
  deriving DecidableEq, Repr

structure Watcher where
  port : Port
  /-- The bytes of `region_`. -/
  mem : ℕ → UInt8
  gi : ℕ

/-- The address of `data.values` of a buffer. -/
def Layout.values (L : Layout) (b : ℕ) : ℕ := b + L.sizeofBuffer

def pollInternal2 (port : Port) : Option (ℕ × Port) :=
  port.buffer.map fun r => (r.1, r.2.start r.1 true)

/-- The kernel writes the bytes to the buffer of the operation and queues its packet. -/
def Watcher.complete (L : Layout) (w : Watcher) (b : ℕ) (n : Notification) : Watcher × Packet :=
  let packet : Packet := ⟨b, UInt32.ofNat n.bytes.length, n.data, false⟩
  (⟨w.port.finish packet, writeBytes w.mem (L.values b) n.bytes, w.gi⟩, packet)

/-- The body of the loop, with the calls of `handle`: an event and its number. -/
def Watcher.round (L : Layout) (fuel : ℕ) (w : Watcher) (n : Notification) :
    Option (Watcher × List (FileWatchEvent × ℕ)) := do
  let (b, port) ← pollInternal2 w.port
  let (w, packet) := Watcher.complete L { w with port } b n
  let (port, got) := w.port.get (some packet)
  let c ← got
  let events ← toEvents w.mem fuel (L.values c.buffer)
  some (⟨port.drop c.buffer, w.mem, w.gi + events.length⟩, events.zipIdx (w.gi + 1))

/-- The loop over the notifications that complete, with what is handled for each of them. A
call that throws ends the loop, and the list is what has completed until then. -/
def watchLoop (L : Layout) (fuel : ℕ) :
    Watcher → List Notification → Option (List (List (FileWatchEvent × ℕ)))
  | _, [] => some []
  | w, n :: ns => do
    let (w, handled) ← w.round L fuel n
    if n.data = -1 then some [handled]
    else
      let rest ← watchLoop L fuel w ns
      some (handled :: rest)

/-- The notifications up to the one that ends the loop. -/
def taken : List Notification → List Notification
  | [] => []
  | n :: ns => n :: if n.data = -1 then [] else taken ns

lemma mem_of_taken {n : Notification} {ns : List Notification} (h : n ∈ taken ns) : n ∈ ns := by
  induction ns with
  | nil => exact h
  | cons m ns ih =>
    rw [taken] at h
    split_ifs at h with hdata
    · rw [List.mem_singleton.mp h]
      exact List.mem_cons_self
    · rcases List.mem_cons.mp h with rfl | h
      · exact List.mem_cons_self
      · exact List.mem_cons_of_mem m (ih h)

/-- The watcher at the head of its loop: all buffers are free, with whatever is in them. -/
def Watcher.atHead (L : Layout) (mem : ℕ → UInt8) (gi : ℕ) : Watcher :=
  ⟨Port.new L 2048 2000, mem, gi⟩

/-- The buffer that every round gets is the last of the pool. -/
def lastBuffer : ℕ := 2048 * 1999

lemma round_atHead (L : Layout) (fuel : ℕ) (mem : ℕ → UInt8) (gi : ℕ) (n : Notification) :
    (Watcher.atHead L mem gi).round L fuel n =
      (toEvents (writeBytes mem (L.values lastBuffer) n.bytes) fuel (L.values lastBuffer)).map
        fun events => (Watcher.atHead L (writeBytes mem (L.values lastBuffer) n.bytes)
          (gi + events.length), events.zipIdx (gi + 1)) := by
  have hbuffer : (Port.new L 2048 2000).buffer =
      some (lastBuffer, ⟨{ BufferPool.new L 2048 2000 with
        freeList := BufferPool.slots 2048 1999 }, [lastBuffer], [], []⟩) := by
    simp [Port.buffer, BufferPool.alloc, Port.new, BufferPool.new, slots_succ 2048 1999, lastBuffer]
  have hfree : BufferPool.slots 2048 1999 ++ [lastBuffer] = BufferPool.slots 2048 2000 :=
    (slots_succ 2048 1999).symm
  cases h : toEvents (writeBytes mem (L.values lastBuffer) n.bytes) fuel (L.values lastBuffer) with
  | none =>
    simp [Watcher.round, pollInternal2, Watcher.atHead, hbuffer, Port.start, Watcher.complete,
      Port.finish, Port.get, h]
  | some events =>
    simp [Watcher.round, pollInternal2, Watcher.atHead, hbuffer, Port.start, Watcher.complete,
      Port.finish, Port.get, Port.drop, BufferPool.giveBack, hfree, h]
    simp only [Port.new, BufferPool.new]

/-- Bytes that hold a well-formed chain of notifications. -/
def WellFormed (bytes : List UInt8) : Prop :=
  ∃ events, ChainWithin (ofBytes bytes) bytes.length 0 events

/-- What is handled for a well-formed chain does not depend on what was in the buffer. -/
lemma round_delivered {n : Notification} (h : WellFormed n.bytes) :
    ∃ (events : List FileWatchEvent) (need : ℕ), ∀ L mem gi fuel, need ≤ fuel →
      (Watcher.atHead L mem gi).round L fuel n =
        some (Watcher.atHead L (writeBytes mem (L.values lastBuffer) n.bytes)
          (gi + events.length), events.zipIdx (gi + 1)) := by
  obtain ⟨events, hchain⟩ := h
  refine ⟨if events.length = 1 then events else events.dropLast, events.length, ?_⟩
  intro L mem gi fuel hfuel
  have hat := hchain.chain (holds_writeBytes mem (L.values lastBuffer) n.bytes)
  rw [round_atHead, Nat.add_zero] at *
  rw [hat.toEvents fuel hfuel, Option.map_some]

/-- Every round handles an event. -/
lemma round_ne_nil {L : Layout} {fuel : ℕ} {mem : ℕ → UInt8} {gi : ℕ} {n : Notification}
    {r : Watcher × List (FileWatchEvent × ℕ)}
    (h : (Watcher.atHead L mem gi).round L fuel n = some r) :
    r.2 ≠ [] ∧ ∃ mem' gi', r.1 = Watcher.atHead L mem' gi' := by
  rw [round_atHead] at h
  obtain ⟨events, hevents, rfl⟩ := Option.map_eq_some_iff.mp h
  refine ⟨?_, _, _, rfl⟩
  have hne := toEventsLoop_ne_nil hevents
  intro hnil
  exact hne (by simpa using congrArg List.length hnil)

lemma watchLoop_cons (L : Layout) (fuel : ℕ) (w : Watcher) (n : Notification)
    (ns : List Notification) :
    watchLoop L fuel w (n :: ns) = (w.round L fuel n).bind fun r =>
      if n.data = -1 then some [r.2]
      else (watchLoop L fuel r.1 ns).map fun rest => r.2 :: rest := by
  rw [watchLoop]
  cases w.round L fuel n with
  | none => rfl
  | some r =>
    show (if n.data = -1 then _ else _) = _
    by_cases hdata : n.data = -1
    · rw [if_pos hdata, Option.bind_some, if_pos hdata]
    · rw [if_neg hdata, Option.bind_some, if_neg hdata]
      cases watchLoop L fuel r.1 ns with
      | none => rfl
      | some rest => rfl

lemma watchLoop_delivered {ns : List Notification} (h : ∀ n ∈ taken ns, WellFormed n.bytes)
    (L : Layout) (gi : ℕ) :
    ∃ (handled : List (List (FileWatchEvent × ℕ))) (need : ℕ), ∀ mem fuel, need ≤ fuel →
      watchLoop L fuel (Watcher.atHead L mem gi) ns = some handled := by
  induction ns generalizing gi with
  | nil => exact ⟨[], 0, fun _ _ _ => rfl⟩
  | cons n ns ih =>
    obtain ⟨events, need, hround⟩ := round_delivered (h n List.mem_cons_self)
    by_cases hdata : n.data = -1
    · refine ⟨[events.zipIdx (gi + 1)], need, ?_⟩
      intro mem fuel hfuel
      rw [watchLoop_cons, hround L mem gi fuel hfuel, Option.bind_some, if_pos hdata]
    · rw [taken, if_neg hdata, List.forall_mem_cons] at h
      obtain ⟨rest, more, hrest⟩ := ih h.2 (gi + events.length)
      refine ⟨events.zipIdx (gi + 1) :: rest, max need more, ?_⟩
      intro mem fuel hfuel
      rw [watchLoop_cons, hround L mem gi fuel (by omega), Option.bind_some, if_neg hdata,
        hrest _ fuel (by omega), Option.map_some]

/-- A run that handles nothing for the empty completions has none of them. -/
lemma taken_ne_nil {L : Layout} {fuel : ℕ} {mem : ℕ → UInt8} {gi : ℕ} {ns : List Notification}
    {handled : List (List (FileWatchEvent × ℕ))}
    (h : watchLoop L fuel (Watcher.atHead L mem gi) ns = some handled)
    (hempty : ∀ q ∈ (taken ns).zip handled, q.1.bytes = [] → q.2 = []) :
    ∀ n ∈ taken ns, n.bytes ≠ [] := by
  induction ns generalizing mem gi handled with
  | nil => exact fun n hn => absurd hn List.not_mem_nil
  | cons n ns ih =>
    rw [watchLoop_cons] at h
    obtain ⟨r, hround, h⟩ := Option.bind_eq_some_iff.mp h
    obtain ⟨hne, mem', gi', hhead⟩ := round_ne_nil hround
    rw [taken] at hempty ⊢
    split_ifs at h hempty ⊢ with hdata
    · obtain rfl := Option.some.inj h
      intro m hm hbytes
      obtain rfl := List.mem_singleton.mp hm
      exact hne (hempty (m, r.2) (by simp) hbytes)
    · obtain ⟨rest, hrest, rfl⟩ := Option.map_eq_some_iff.mp h
      rw [List.zip_cons_cons, List.forall_mem_cons] at hempty
      rw [hhead] at hrest
      intro m hm
      rcases List.mem_cons.mp hm with rfl | hm
      · exact fun hbytes => hne (hempty.1 hbytes)
      · exact ih hrest hempty.2 m hm

/-- When the events depend on the delivered bytes only. Two runs with the same deliveries,
and anything else in their buffers, handle the same events, and none for the completions
without a byte, exactly if there is no completion without a byte. -/
theorem watchLoop_delivered_iff (L : Layout) (ns : List Notification)
    (hwf : ∀ n ∈ ns, n.bytes = [] ∨ WellFormed n.bytes) (mem mem' : ℕ → UInt8) (gi : ℕ) :
    (∃ handled, (∃ need, ∀ fuel, need ≤ fuel →
        watchLoop L fuel (Watcher.atHead L mem gi) ns = some handled ∧
          watchLoop L fuel (Watcher.atHead L mem' gi) ns = some handled) ∧
        ∀ q ∈ (taken ns).zip handled, q.1.bytes = [] → q.2 = []) ↔
      ∀ n ∈ taken ns, n.bytes ≠ [] := by
  constructor
  · rintro ⟨handled, ⟨need, hrun⟩, hempty⟩
    exact taken_ne_nil (hrun need le_rfl).1 hempty
  · intro hne
    have hformed : ∀ n ∈ taken ns, WellFormed n.bytes := fun n hn =>
      (hwf n (mem_of_taken hn)).resolve_left (hne n hn)
    obtain ⟨handled, need, hrun⟩ := watchLoop_delivered hformed L gi
    refine ⟨handled, ⟨need, fun fuel hfuel => ⟨hrun mem fuel hfuel, hrun mem' fuel hfuel⟩⟩, ?_⟩
    intro q hq hbytes
    exact absurd hbytes (hne q.1 (List.of_mem_zip hq).1)

/-- One notification, over a buffer of zeros and one that is full of other bytes. -/
theorem watchLoop_delivered_iff_one :
    ∃ handled fuel,
      watchLoop .x64 fuel (Watcher.atHead .x64 (fun _ => 0) 0) [⟨encode [added 97], 0⟩] =
          some handled ∧
        watchLoop .x64 fuel (Watcher.atHead .x64 (fun _ => 255) 0) [⟨encode [added 97], 0⟩] =
          some handled := by
  have hchain : ChainWithin (ofBytes (encode [added 97])) 14 0 [added 97] :=
    ⟨encode_chain (by simp) (by decide) (holds_ofBytes (encode [added 97])), le_rfl⟩
  have hwf : ∀ n ∈ [(⟨encode [added 97], 0⟩ : Notification)],
      n.bytes = [] ∨ WellFormed n.bytes := by
    intro n hn
    obtain rfl := List.mem_singleton.mp hn
    exact .inr ⟨_, hchain⟩
  have hne : ∀ n ∈ taken [(⟨encode [added 97], 0⟩ : Notification)], n.bytes ≠ [] := by
    intro n hn
    obtain rfl := List.mem_singleton.mp (mem_of_taken hn)
    exact List.cons_ne_nil _ _
  obtain ⟨handled, ⟨need, hrun⟩, -⟩ :=
    (watchLoop_delivered_iff .x64 _ hwf (fun _ => 0) (fun _ => 255) 0).mpr hne
  exact ⟨handled, need, hrun need le_rfl⟩

lemma watchLoop_empty {mem : ℕ → UInt8} {e : FileWatchEvent}
    (h : Chain mem (Layout.x64.values lastBuffer) [e]) :
    watchLoop .x64 1 (Watcher.atHead .x64 mem 0) [⟨[], 0⟩] = some [[(e, 1)]] := by
  have hsame : writeBytes mem (Layout.x64.values lastBuffer) [] = mem := by
    funext a
    rw [writeBytes, if_neg]
    rw [List.length_nil]
    omega
  rw [watchLoop_cons, round_atHead, hsame, h.toEvents 1 le_rfl]
  rfl

/-- The change buffer of the system overflows and the completion has no bytes. In a fresh
buffer an event without a name is handled, and in one that a file was reported in before,
the file is handled once more. -/
theorem watchLoop_overflow :
    watchLoop .x64 1 (Watcher.atHead .x64 (fun _ => 0) 0) [⟨[], 0⟩] = some [[(⟨0, []⟩, 1)]] ∧
      watchLoop .x64 1 (Watcher.atHead .x64 (writeBytes (fun _ => 0)
        (Layout.x64.values lastBuffer) (encode [added 97])) 0) [⟨[], 0⟩] =
          some [[(added 97, 1)]] := by
  constructor
  · exact watchLoop_empty ⟨rfl, rfl, rfl, rfl⟩
  · exact watchLoop_empty (encode_chain (by simp) (by decide) (holds_writeBytes _ _ _))

end CppMisc.Watch
