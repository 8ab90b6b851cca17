import CppMisc.ByteMemory

/-! `toEvents` of `FileWatcher.cc` over a chain of `FILE_NOTIFY_INFORMATION` entries. The
loop moves on before it looks at `NextEntryOffset`, so what it looks at is the offset of
the entry that it has not taken yet. -/
namespace CppMisc.Watch
open ByteMemory

structure FileWatchEvent where
  action : UInt32
  path : List UInt16
  deriving DecidableEq, Repr

/-! The fields of the entry at an address. -/

def nextEntryOffset (mem : ℕ → UInt8) (p : ℕ) : UInt32 := UInt32.ofNat (readNat mem p 4)

def action (mem : ℕ → UInt8) (p : ℕ) : UInt32 := UInt32.ofNat (readNat mem (p + 4) 4)

def fileNameLength (mem : ℕ → UInt8) (p : ℕ) : UInt32 := UInt32.ofNat (readNat mem (p + 8) 4)

/-- `std::wstring(FileName, n)` -/
def fileName (mem : ℕ → UInt8) (p n : ℕ) : List UInt16 :=
  (List.range n).map fun i => UInt16.ofNat (readNat mem (p + 12 + 2 * i) 2)

def eventAt (mem : ℕ → UInt8) (p : ℕ) : FileWatchEvent :=
  ⟨action mem p, fileName mem p ((fileNameLength mem p).toNat / 2)⟩

/-- The `do` loop, for as many rounds as the fuel allows. -/
def toEventsLoop (mem : ℕ → UInt8) :
    ℕ → ℕ → List FileWatchEvent → Option (List FileWatchEvent)
  | 0, _, _ => none
  | fuel + 1, notifications, events =>
    let events := events ++ [eventAt mem notifications]
    let notifications := notifications + (nextEntryOffset mem notifications).toNat
    if nextEntryOffset mem notifications ≠ 0 then toEventsLoop mem fuel notifications events
    else some events

def toEvents (mem : ℕ → UInt8) (fuel notifications : ℕ) : Option (List FileWatchEvent) :=
  toEventsLoop mem fuel notifications []

/-- An entry for the event, with the distance to the next one. -/
structure EntryAt (mem : ℕ → UInt8) (p : ℕ) (offset : UInt32) (e : FileWatchEvent) : Prop where
  next : nextEntryOffset mem p = offset
  action : action mem p = e.action
  length : (fileNameLength mem p).toNat = 2 * e.path.length
  name : fileName mem p e.path.length = e.path

/-- A well-formed chain of entries for the events. -/
def Chain (mem : ℕ → UInt8) : ℕ → List FileWatchEvent → Prop
  | _, [] => False
  | p, [e] => EntryAt mem p 0 e
  | p, e :: e' :: es =>
      ∃ offset : UInt32, offset ≠ 0 ∧ EntryAt mem p offset e ∧
        Chain mem (p + offset.toNat) (e' :: es)

/-- A well-formed chain whose entries end at the address `stop` or before it. -/
def ChainWithin (mem : ℕ → UInt8) (stop : ℕ) : ℕ → List FileWatchEvent → Prop
  | _, [] => False
  | p, [e] => EntryAt mem p 0 e ∧ p + 12 + 2 * e.path.length ≤ stop
  | p, e :: e' :: es =>
      ∃ offset : UInt32, offset ≠ 0 ∧ EntryAt mem p offset e ∧
        p + 12 + 2 * e.path.length ≤ stop ∧ ChainWithin mem stop (p + offset.toNat) (e' :: es)

variable {mem : ℕ → UInt8}

lemma EntryAt.congr {mem' : ℕ → UInt8} {p q : ℕ} {offset : UInt32} {e : FileWatchEvent}
    (h : EntryAt mem p offset e) (hmem : ∀ i < 12 + 2 * e.path.length, mem' (q + i) = mem (p + i)) :
    EntryAt mem' q offset e := by
  have hread : ∀ a k, a + k ≤ 12 + 2 * e.path.length →
      readNat mem' (q + a) k = readNat mem (p + a) k := by
    intro a k hak
    apply readNat_congr
    intro i hi
    rw [Nat.add_assoc, Nat.add_assoc]
    exact hmem (a + i) (by omega)
  constructor
  · rw [← h.next, nextEntryOffset, nextEntryOffset]
    exact congrArg UInt32.ofNat (hread 0 4 (by omega))
  · rw [← h.action, Watch.action, Watch.action, hread 4 4 (by omega)]
  · rw [← h.length, fileNameLength, fileNameLength, hread 8 4 (by omega)]
  · conv_rhs => rw [← h.name]
    rw [fileName, fileName]
    apply List.map_congr_left
    intro i hi
    have hlt := List.mem_range.mp hi
    rw [Nat.add_assoc q, Nat.add_assoc p, hread (12 + 2 * i) 2 (by omega)]

/-- A chain within some bytes is one wherever these bytes lie. -/
lemma ChainWithin.chain {bytes : List UInt8} {p base : ℕ} {events : List FileWatchEvent}
    (h : ChainWithin (ofBytes bytes) bytes.length p events) (hmem : Holds mem base bytes) :
    Chain mem (base + p) events := by
  induction events generalizing p with
  | nil => exact h
  | cons e es ih =>
    cases es with
    | nil =>
      obtain ⟨hentry, hend⟩ := h
      refine hentry.congr ?_
      intro i hi
      rw [Nat.add_assoc]
      exact hmem.ofBytes (by omega)
    | cons e' es =>
      obtain ⟨offset, hne, hentry, hend, hrest⟩ := h
      refine ⟨offset, hne, hentry.congr ?_, ?_⟩
      · intro i hi
        rw [Nat.add_assoc]
        exact hmem.ofBytes (by omega)
      · rw [Nat.add_assoc]
        exact ih hrest

lemma EntryAt.eventAt {p : ℕ} {offset : UInt32} {e : FileWatchEvent}
    (h : EntryAt mem p offset e) : eventAt mem p = e := by
  have hn : (fileNameLength mem p).toNat / 2 = e.path.length := by
    rw [h.length]
    omega
  rw [Watch.eventAt, hn, h.action, h.name]

lemma Chain.toEventsLoop {p fuel : ℕ} {e e' : FileWatchEvent} {es : List FileWatchEvent}
    (h : Chain mem p (e :: e' :: es)) (hfuel : es.length < fuel) (events : List FileWatchEvent) :
    toEventsLoop mem fuel p events = some (events ++ (e :: e' :: es).dropLast) := by
  induction es generalizing p fuel e e' events with
  | nil =>
    obtain ⟨offset, -, hentry, hlast⟩ := h
    obtain ⟨n, rfl⟩ : ∃ n, fuel = n + 1 := ⟨fuel - 1, by omega⟩
    rw [Watch.toEventsLoop]
    simp only [hentry.eventAt, hentry.next, hlast.next]
    simp
  | cons e'' es ih =>
    obtain ⟨offset, -, hentry, htail⟩ := h
    obtain ⟨n, rfl⟩ : ∃ n, fuel = n + 1 := ⟨fuel - 1, by simp at hfuel; omega⟩
    obtain ⟨offset', hoffset', hentry', -⟩ := id htail
    rw [Watch.toEventsLoop]
    simp only [hentry.eventAt, hentry.next, hentry'.next, hoffset', ne_eq, not_false_eq_true,
      if_true]
    rw [ih htail (by simpa using hfuel)]
    simp

lemma Chain.toEventsLoop_single {p fuel : ℕ} {e : FileWatchEvent} (h : Chain mem p [e])
    (hfuel : 0 < fuel) (events : List FileWatchEvent) :
    Watch.toEventsLoop mem fuel p events = some (events ++ [e]) := by
  obtain ⟨n, rfl⟩ : ∃ n, fuel = n + 1 := ⟨fuel - 1, by omega⟩
  have hentry : EntryAt mem p 0 e := h
  rw [Watch.toEventsLoop]
  simp [hentry.eventAt, hentry.next]

lemma toEventsLoop_mono {p fuel fuel' : ℕ} {events result : List FileWatchEvent}
    (h : toEventsLoop mem fuel p events = some result) (hle : fuel ≤ fuel') :
    toEventsLoop mem fuel' p events = some result := by
  induction fuel generalizing p fuel' events with
  | zero => cases h
  | succ n ih =>
    obtain ⟨n', rfl⟩ : ∃ n', fuel' = n' + 1 := ⟨fuel' - 1, by omega⟩
    rw [toEventsLoop] at h ⊢
    split_ifs at h ⊢ with hnext
    · exact ih h (by omega)
    · exact h

/-! Laying events down, each entry at a multiple of four bytes from the first. -/

def nameBytes (path : List UInt16) : List UInt8 := path.flatMap fun u => bytesOf 2 u.toNat

def entryBytes (offset : ℕ) (e : FileWatchEvent) : List UInt8 :=
  bytesOf 4 offset ++ bytesOf 4 e.action.toNat ++ bytesOf 4 (2 * e.path.length) ++
    nameBytes e.path

def entrySize (e : FileWatchEvent) : ℕ := (12 + 2 * e.path.length + 3) / 4 * 4

def encode : List FileWatchEvent → List UInt8
  | [] => []
  | [e] => entryBytes 0 e
  | e :: e' :: es =>
      entryBytes (entrySize e) e ++
        List.replicate (entrySize e - (12 + 2 * e.path.length)) 0 ++ encode (e' :: es)

@[simp] lemma nameBytes_length (path : List UInt16) :
    (nameBytes path).length = 2 * path.length := by
  induction path with
  | nil => rfl
  | cons u path ih =>
    have hcons : nameBytes (u :: path) = bytesOf 2 u.toNat ++ nameBytes path := rfl
    rw [hcons, List.length_append, bytesOf_length, ih, List.length_cons]
    omega

@[simp] lemma entryBytes_length (offset : ℕ) (e : FileWatchEvent) :
    (entryBytes offset e).length = 12 + 2 * e.path.length := by
  simp only [entryBytes, List.length_append, bytesOf_length, nameBytes_length]

lemma fileName_of_holds {p : ℕ} {path : List UInt16}
    (h : Holds mem (p + 12) (nameBytes path)) : fileName mem p path.length = path := by
  induction path generalizing p with
  | nil => rfl
  | cons u path ih =>
    have hcons : nameBytes (u :: path) = bytesOf 2 u.toNat ++ nameBytes path := rfl
    rw [hcons, Holds.append, bytesOf_length] at h
    obtain ⟨hhead, htail⟩ := h
    have hu : readNat mem (p + 12) 2 = u.toNat := hhead.readNat u.toNat_lt
    have hrest := ih (p := p + 2) (by rwa [Nat.add_right_comm])
    rw [fileName, List.length_cons, List.range_succ_eq_map, List.map_cons, List.map_map]
    congr 1
    · simp [hu]
    · conv_rhs => rw [← hrest]
      rw [fileName]
      apply List.map_congr_left
      intro i _
      have hat : p + 12 + 2 * (i + 1) = p + 2 + 12 + 2 * i := by omega
      simp only [Function.comp_apply, Nat.succ_eq_add_one, hat]

lemma entryAt_of_holds {p offset : ℕ} {e : FileWatchEvent}
    (h : Holds mem p (entryBytes offset e)) (hoffset : offset < 2 ^ 32)
    (hlen : 2 * e.path.length < 2 ^ 32) : EntryAt mem p (UInt32.ofNat offset) e := by
  simp only [entryBytes, Holds.append, List.length_append, bytesOf_length] at h
  obtain ⟨⟨⟨hnext, haction⟩, hlength⟩, hname⟩ := h
  refine ⟨?_, ?_, ?_, fileName_of_holds hname⟩
  · rw [nextEntryOffset, hnext.readNat hoffset]
  · rw [action, haction.readNat e.action.toNat_lt, UInt32.ofNat_toNat]
  · rw [fileNameLength, hlength.readNat hlen]
    exact UInt32.toNat_ofNat_of_lt' hlen

/-- Events whose entries have a size that fits a DWORD can be laid down as a chain. -/
theorem encode_chain {p : ℕ} {events : List FileWatchEvent} (hne : events ≠ [])
    (hfits : ∀ e ∈ events, 2 * e.path.length + 16 ≤ 2 ^ 32)
    (h : Holds mem p (encode events)) : Chain mem p events := by
  induction events generalizing p with
  | nil => exact absurd rfl hne
  | cons e es ih =>
    rw [List.forall_mem_cons] at hfits
    obtain ⟨hfit, hrest⟩ := hfits
    cases es with
    | nil =>
      have hentry : Holds mem p (entryBytes 0 e) := h
      exact entryAt_of_holds hentry (by norm_num) (by omega)
    | cons e' es =>
      have hsize : entrySize e < 2 ^ 32 ∧ 12 + 2 * e.path.length ≤ entrySize e := by
        rw [entrySize]
        omega
      rw [encode, Holds.append, Holds.append, List.length_append, entryBytes_length,
        List.length_replicate, Nat.add_sub_cancel' hsize.2] at h
      obtain ⟨⟨hentry, -⟩, htail⟩ := h
      have hnat : (UInt32.ofNat (entrySize e)).toNat = entrySize e :=
        UInt32.toNat_ofNat_of_lt' hsize.1
      refine ⟨UInt32.ofNat (entrySize e), ?_, entryAt_of_holds hentry hsize.1 (by omega), ?_⟩
      · intro hzero
        rw [hzero] at hnat
        have hpos : (0 : UInt32).toNat = 0 := rfl
        omega
      · rw [hnat]
        exact ih (by simp) hrest htail

lemma toEventsLoop_ne_nil {p fuel : ℕ} {events result : List FileWatchEvent}
    (h : toEventsLoop mem fuel p events = some result) : result ≠ [] := by
  induction fuel generalizing p events with
  | zero => cases h
  | succ n ih =>
    rw [toEventsLoop] at h
    split_ifs at h with hnext
    · exact ih h
    · obtain rfl := Option.some.inj h
      simp

lemma Chain.toEvents {p : ℕ} {events : List FileWatchEvent} (h : Chain mem p events) :
    ∀ fuel, events.length ≤ fuel → Watch.toEvents mem fuel p =
      some (if events.length = 1 then events else events.dropLast) := by
  intro fuel hfuel
  match events, h with
  | [e], h => exact h.toEventsLoop_single (Nat.lt_of_succ_le hfuel) []
  | e :: e' :: es, h =>
    have hlong : (e :: e' :: es).length ≠ 1 := by simp
    rw [if_neg hlong]
    exact h.toEventsLoop (by simp at hfuel; omega) []

/-- What `toEvents` returns for a chain, and when that is the whole list: only a single
event comes back; of a longer list the last one is missing. -/
theorem toEvents_eq_iff {p : ℕ} {events : List FileWatchEvent} (h : Chain mem p events) :
    (∀ fuel, events.length ≤ fuel → toEvents mem fuel p =
        some (if events.length = 1 then events else events.dropLast)) ∧
      ((∃ fuel, toEvents mem fuel p = some events) ↔ events.length = 1) := by
  have hresult := h.toEvents
  refine ⟨hresult, ?_, ?_⟩
  · rintro ⟨fuel, hfuel⟩
    by_contra hlong
    have hmore := toEventsLoop_mono hfuel (le_max_left fuel events.length)
    have hdrop := hresult _ (le_max_right fuel events.length)
    rw [toEvents, hmore, if_neg hlong, Option.some.injEq] at hdrop
    have hlen := congrArg List.length hdrop
    rw [List.length_dropLast] at hlen
    have hpos : events ≠ [] := by
      rintro rfl
      exact h
    have := List.length_pos_iff.mpr hpos
    omega
  · intro hone
    refine ⟨events.length, ?_⟩
    rw [hresult _ le_rfl, if_pos hone]

/-- A file that was added, with a name of one unit. -/
def added (unit : UInt16) : FileWatchEvent := ⟨1, [unit]⟩

theorem toEvents_single : toEvents (ofBytes (encode [added 97])) 1 0 = some [added 97] := by
  have hchain := encode_chain (by simp) (by decide) (holds_ofBytes (encode [added 97]))
  exact (toEvents_eq_iff hchain).1 1 le_rfl

/-- The second of two files is lost. -/
theorem toEvents_two_files :
    Chain (ofBytes (encode [added 97, added 98])) 0 [added 97, added 98] ∧
      ∀ fuel, toEvents (ofBytes (encode [added 97, added 98])) fuel 0 ≠
        some [added 97, added 98] := by
  have hchain := encode_chain (by simp) (by decide)
    (holds_ofBytes (encode [added 97, added 98]))
  refine ⟨hchain, ?_⟩
  intro fuel hall
  have hmore := toEventsLoop_mono hall (le_max_left fuel 1)
  rw [hchain.toEventsLoop (le_max_right fuel 1) []] at hmore
  exact absurd hmore (by decide)

end CppMisc.Watch
