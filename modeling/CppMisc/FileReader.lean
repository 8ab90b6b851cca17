import Mathlib

/-! `CFile`, `read_all_bytes` and `read_block_by_block` of `myio.hh`. A file is what the
calls see of it: its length when it is asked for, how many of its bytes reads deliver
before they stop, and whether they stop at an end or with an error. -/
namespace CppMisc.Myio

def sizeMod : ℕ := 2 ^ 64

/-- Subtraction of `size_t`. -/
def sizeSub (a b : ℕ) : ℕ := (a + sizeMod - b) % sizeMod

lemma sizeSub_eq {a b : ℕ} (hb : b ≤ a) (ha : a < sizeMod) : sizeSub a b = a - b := by
  have hsum : a + sizeMod - b = a - b + sizeMod := by omega
  rw [sizeSub, hsum, Nat.add_mod_right]
  exact Nat.mod_eq_of_lt (by omega)

inductive Seek
  | current
  | set
  | end_
  deriving DecidableEq, Repr

structure CFile where
  /-- Whether the handle is null. -/
  bad : Bool
  content : List UInt8
  /-- How many bytes reads deliver. -/
  limit : ℕ
  fails : Bool
  pos : ℕ
  eof : Bool
  error : Bool
  deriving DecidableEq, Repr

namespace CFile

def opened (content : List UInt8) : CFile :=
  ⟨false, content, content.length, false, 0, false, false⟩

def seek (file : CFile) (offset : ℤ) (origin : Seek) : CFile × Bool :=
  let base : ℤ := match origin with
    | .current => file.pos
    | .set => 0
    | .end_ => file.content.length
  if base + offset < 0 then (file, false)
  else ({ file with pos := (base + offset).toNat, eof := false }, true)

lemma seek_end (file : CFile) :
    (file.seek 0 .end_).1 = { file with pos := file.content.length, eof := false } := by
  have hpos : ¬ ((file.content.length : ℤ) < 0) := by omega
  simp only [seek, add_zero, if_neg hpos, Int.toNat_natCast]

lemma seek_set (file : CFile) : (file.seek 0 .set).1 = { file with pos := 0, eof := false } := rfl

def tell (file : CFile) : ℕ := file.pos

/-- The bytes that reads deliver from the position on. -/
def rest (file : CFile) : List UInt8 := (file.content.take file.limit).drop file.pos

/-- `fread`: a short read sets `eof` or `error`. -/
def read (file : CFile) (length : ℕ) : CFile × List UInt8 :=
  let data := file.rest.take length
  let short := decide (data.length < length)
  ({ file with
      pos := file.pos + data.length
      eof := file.eof || short && !file.fails
      error := file.error || short && file.fails }, data)

end CFile

/-- `read_all_bytes`: what is not read over stays zero. -/
def readAllBytes (file : CFile) : List UInt8 :=
  let file := (file.seek 0 .end_).1
  let length := file.tell
  let file := (file.seek 0 .set).1
  let data := (file.read length).2
  data ++ List.replicate (length - data.length) 0

/-- The variables of `read_block_by_block` at the head of its loop; `state` is what the
callback keeps between its calls. -/
structure Reader (σ : Type*) where
  file : CFile
  buffer : List UInt8
  isOpen : Bool
  offset : ℕ
  state : σ

structure Round where
  span : List UInt8
  answer : ℕ
  processed : ℕ
  newOffset : ℕ
  deriving DecidableEq, Repr

abbrev BlockFunc (σ : Type*) := σ → List UInt8 → σ × ℕ

variable {σ : Type*}

/-- `readFile` and the bytes it leaves in the buffer. -/
def Reader.readFile (r : Reader σ) (remaining : ℕ) : CFile × List UInt8 :=
  if r.isOpen then r.file.read remaining else (r.file, [])

/-- How much of the `available` bytes `runCallBack` lets the answer count for. -/
def clampProcessed (available answer : ℕ) : ℕ :=
  let processed := if answer > available then available else answer
  if processed < 1 then 1 else processed

/-- The `memmove` of `shiftBuffer`; a move out of the range of the buffer is undefined
and is left out here, and `ending` says where one has come. -/
def moveDown (buffer : List UInt8) (processed newOffset : ℕ) : List UInt8 :=
  if processed + newOffset ≤ buffer.length then
    (buffer.drop processed).take newOffset ++ buffer.drop newOffset
  else buffer

def Reader.round (func : BlockFunc σ) (bufferSize : ℕ) (r : Reader σ) : Reader σ × Round :=
  let remaining := sizeSub bufferSize r.offset
  let read := r.readFile remaining
  let numRead := read.2.length
  let buffer := r.buffer.take r.offset ++ read.2 ++ r.buffer.drop (r.offset + numRead)
  let available := r.offset + numRead
  let answered := func r.state (buffer.take available)
  let processed := clampProcessed available answered.2
  let isOpen := r.isOpen && !(numRead != remaining && (read.1.eof || read.1.error))
  let newOffset := sizeSub available processed
  (⟨read.1, moveDown buffer processed newOffset, isOpen, newOffset, answered.1⟩,
    ⟨buffer.take available, answered.2, processed, newOffset⟩)

/-- The loop, for as many rounds as the fuel allows. -/
def Reader.rounds (func : BlockFunc σ) (bufferSize : ℕ) :
    ℕ → Reader σ → Option (Reader σ × List Round)
  | 0, _ => none
  | fuel + 1, r =>
    let next := r.round func bufferSize
    if next.2.span.length > 0 then
      (rounds func bufferSize fuel next.1).map fun last => (last.1, next.2 :: last.2)
    else some (next.1, [next.2])

/-- `read_block_by_block` up to the end of its loop. -/
def readBlockByBlock (func : BlockFunc σ) (bufferSize fuel : ℕ) (file : CFile) (state : σ) :
    Option (CFile × σ × List Round) :=
  if bufferSize = 0 then some (file, state, [])
  else if file.bad then some (file, state, [])
  else
    (Reader.rounds func bufferSize fuel
      ⟨file, List.replicate bufferSize 0, true, 0, state⟩).map fun last =>
        (last.1.file, last.1.state, last.2)

/-- The `memmove` of the round stays in the buffer. -/
def Round.moves (bufferSize : ℕ) (r : Round) : Bool :=
  decide (r.processed + r.newOffset ≤ bufferSize)

/-- How `read_block_by_block` ends for its caller: it returns, or a `memmove` has left the buffer
and nothing is defined from there on. -/
inductive Ending (σ : Type*)
  | returned (state : σ)
  | outOfRange
  deriving DecidableEq, Repr

def ending (bufferSize : ℕ) (last : CFile × σ × List Round) : Ending σ :=
  if last.2.2.all (Round.moves bufferSize) then .returned last.2.1 else .outOfRange

/-! The loop presents the bytes that are delivered as a sliding window. -/

/-- The spans for the bytes that are still to come: each begins where the one before it
was processed to, and the last is empty. -/
def windowSpans (func : BlockFunc σ) (bufferSize : ℕ) :
    ℕ → List UInt8 → σ → Option (σ × List (List UInt8))
  | 0, _, _ => none
  | fuel + 1, bytes, state =>
    let span := bytes.take bufferSize
    let answered := func state span
    if span.length > 0 then
      (windowSpans func bufferSize fuel (bytes.drop (clampProcessed span.length answered.2))
        answered.1).map fun last => (last.1, span :: last.2)
    else some (answered.1, [span])

/-- The bytes `bytes` are still to be processed: the first of them wait in the buffer and
the file delivers the others. A reader that is no longer open has nothing to read. -/
structure Reader.Awaits (bufferSize : ℕ) (r : Reader σ) (bytes : List UInt8) : Prop where
  length : r.buffer.length = bufferSize
  offset_lt : r.offset < bufferSize
  waiting : r.buffer.take r.offset ++ r.file.rest = bytes
  closed : r.isOpen = false → r.file.rest = []

lemma clampProcessed_bounds {available : ℕ} (h : 0 < available) (answer : ℕ) :
    0 < clampProcessed available answer ∧ clampProcessed available answer ≤ available := by
  unfold clampProcessed
  dsimp only
  split_ifs <;> omega

lemma clampProcessed_of_le {available answer : ℕ} (hpos : 0 < answer) (h : answer ≤ available) :
    clampProcessed available answer = answer := by
  unfold clampProcessed
  dsimp only
  split_ifs <;> omega

lemma clampProcessed_of_ge {available answer : ℕ} (hpos : 0 < available) (h : available ≤ answer) :
    clampProcessed available answer = available := by
  unfold clampProcessed
  dsimp only
  split_ifs <;> omega

lemma CFile.read_rest (file : CFile) (length : ℕ) :
    (file.read length).2 = file.rest.take length ∧
      (file.read length).1.rest = file.rest.drop length := by
  refine ⟨rfl, ?_⟩
  simp only [CFile.read, CFile.rest, List.drop_drop, List.length_take]
  rcases Nat.le_total length ((file.content.take file.limit).drop file.pos).length with h | h
  · rw [min_eq_left h, Nat.add_comm]
  · rw [min_eq_right h, List.drop_eq_nil_of_le, List.drop_eq_nil_of_le]
    · rw [List.length_drop] at h
      omega
    · rw [List.length_drop]
      omega

lemma Reader.Awaits.readFile {bufferSize : ℕ} {r : Reader σ} {bytes : List UInt8}
    (h : r.Awaits bufferSize bytes) (remaining : ℕ) :
    (r.readFile remaining).2 = r.file.rest.take remaining ∧
      (r.readFile remaining).1.rest = r.file.rest.drop remaining := by
  unfold Reader.readFile
  split_ifs with hopen
  · exact r.file.read_rest remaining
  · have hrest := h.closed (by simpa using hopen)
    rw [hrest, List.take_nil, List.drop_nil]
    exact ⟨rfl, rfl⟩

lemma moveDown_length (buffer : List UInt8) (processed newOffset : ℕ) :
    (moveDown buffer processed newOffset).length = buffer.length := by
  unfold moveDown
  split_ifs with hrange
  · simp only [List.length_append, List.length_take, List.length_drop]
    omega
  · rfl

lemma moveDown_take {buffer : List UInt8} {processed newOffset : ℕ}
    (h : processed + newOffset ≤ buffer.length) :
    (moveDown buffer processed newOffset).take newOffset =
      (buffer.take (processed + newOffset)).drop processed := by
  have hlen : ((buffer.drop processed).take newOffset).length = newOffset := by
    rw [List.length_take, List.length_drop]
    omega
  rw [moveDown, if_pos h, List.take_left' hlen, List.drop_take, Nat.add_sub_cancel_left]

/-- What has been read fills the buffer up to the next window, and the file delivers what
follows it. -/
lemma Reader.Awaits.fill {bufferSize : ℕ} {r : Reader σ} {bytes : List UInt8}
    (h : r.Awaits bufferSize bytes) :
    r.buffer.take r.offset ++ (r.readFile (bufferSize - r.offset)).2 = bytes.take bufferSize ∧
      r.offset + (r.readFile (bufferSize - r.offset)).2.length =
        (bytes.take bufferSize).length ∧
      (r.readFile (bufferSize - r.offset)).1.rest = bytes.drop bufferSize := by
  have hoffset := h.offset_lt
  obtain ⟨hdata, hfile⟩ := h.readFile (bufferSize - r.offset)
  have hwait : (r.buffer.take r.offset).length = r.offset := by
    rw [List.length_take, h.length]
    omega
  have hlong : (r.buffer.take r.offset).take bufferSize = r.buffer.take r.offset :=
    List.take_of_length_le (by omega)
  have hspan : r.buffer.take r.offset ++ (r.readFile (bufferSize - r.offset)).2 =
      bytes.take bufferSize := by
    rw [← h.waiting, List.take_append, hlong, hwait, hdata]
  refine ⟨hspan, ?_, ?_⟩
  · rw [← hspan, List.length_append, hwait]
  · have hgone : (r.buffer.take r.offset).drop bufferSize = [] :=
      List.drop_eq_nil_of_le (by omega)
    rw [← h.waiting, List.drop_append, hgone, hwait, hfile, List.nil_append]

/-- A reader that closes has read all that there was. -/
lemma Reader.Awaits.exhausted {bufferSize : ℕ} {r : Reader σ} {bytes : List UInt8}
    (h : r.Awaits bufferSize bytes) {remaining : ℕ} {stopped : Bool}
    (hclosed : (r.isOpen && !((r.readFile remaining).2.length != remaining && stopped)) = false) :
    (r.readFile remaining).1.rest = [] := by
  obtain ⟨hdata, hfile⟩ := h.readFile remaining
  rw [hfile]
  cases hopen : r.isOpen with
  | false => rw [h.closed hopen, List.drop_nil]
  | true =>
    have hshort : (r.readFile remaining).2.length ≠ remaining := by
      intro hfull
      simp [hopen, hfull] at hclosed
    rw [hdata, List.length_take] at hshort
    exact List.drop_eq_nil_of_le (by omega)

lemma Reader.Awaits.round {bufferSize : ℕ} {r : Reader σ} {bytes : List UInt8}
    (h : r.Awaits bufferSize bytes) (hsize : bufferSize < sizeMod) (func : BlockFunc σ) :
    (r.round func bufferSize).2.span = bytes.take bufferSize ∧
      (r.round func bufferSize).1.state = (func r.state (bytes.take bufferSize)).1 ∧
      (bytes ≠ [] → (r.round func bufferSize).1.Awaits bufferSize
        (bytes.drop (clampProcessed (bytes.take bufferSize).length
          (func r.state (bytes.take bufferSize)).2))) := by
  have hremaining : sizeSub bufferSize r.offset = bufferSize - r.offset :=
    sizeSub_eq h.offset_lt.le hsize
  obtain ⟨hspan, hcount, hbehind⟩ := h.fill
  unfold Reader.round
  simp only [hremaining, hspan, hcount, List.take_left]
  refine ⟨trivial, trivial, ?_⟩
  intro hne
  have hpos : 0 < (bytes.take bufferSize).length := by
    rw [List.length_take]
    exact lt_min (Nat.zero_lt_of_lt h.offset_lt) (List.length_pos_iff.mpr hne)
  have hle : (bytes.take bufferSize).length ≤ bufferSize := by
    rw [List.length_take]
    exact min_le_left _ _
  obtain ⟨hmin, hmax⟩ := clampProcessed_bounds hpos (func r.state (bytes.take bufferSize)).2
  generalize clampProcessed (bytes.take bufferSize).length
    (func r.state (bytes.take bufferSize)).2 = processed at hmin hmax ⊢
  rw [sizeSub_eq hmax (by omega)]
  have hbuffer : (bytes.take bufferSize ++
      r.buffer.drop (bytes.take bufferSize).length).length = bufferSize := by
    rw [List.length_append, List.length_drop, h.length]
    omega
  constructor
  · exact (moveDown_length _ _ _).trans hbuffer
  · show (bytes.take bufferSize).length - processed < bufferSize
    omega
  · show (moveDown _ processed ((bytes.take bufferSize).length - processed)).take
      ((bytes.take bufferSize).length - processed) ++
        (r.readFile (bufferSize - r.offset)).1.rest = _
    rw [moveDown_take (by omega), Nat.add_sub_cancel' hmax, List.take_left, hbehind]
    conv_rhs => rw [← List.take_append_drop bufferSize bytes]
    rw [List.drop_append_of_le_length hmax]
  · intro hclosed
    exact h.exhausted hclosed

/-- With enough fuel the loop gives the callback exactly the windows over the bytes that
the file delivers. -/
theorem Reader.Awaits.rounds {bufferSize : ℕ} (hsize : bufferSize < sizeMod)
    (func : BlockFunc σ) (fuel : ℕ) {r : Reader σ} {bytes : List UInt8}
    (h : r.Awaits bufferSize bytes) :
    (r.rounds func bufferSize fuel).map (fun last => (last.1.state, last.2.map Round.span)) =
      windowSpans func bufferSize fuel bytes r.state := by
  induction fuel generalizing r bytes with
  | zero => rfl
  | succ fuel ih =>
    obtain ⟨hspan, hstate, hnext⟩ := h.round hsize func
    have hpos := h.offset_lt
    rw [Reader.rounds, windowSpans]
    simp only [hspan]
    split_ifs with hlen
    · have hne : bytes ≠ [] := by
        rintro rfl
        simp at hlen
      rw [← hstate, ← ih (hnext hne), Option.map_map, Option.map_map]
      congr 1
      funext last
      simp only [Function.comp_apply, List.map_cons, hspan]
    · simp only [Option.map_some, hstate, List.map_singleton, hspan]

/-- One round for each byte and one for the end are enough. -/
theorem windowSpans_isSome (func : BlockFunc σ) (bufferSize fuel : ℕ)
    (bytes : List UInt8) (state : σ) (hfuel : bytes.length < fuel) :
    (windowSpans func bufferSize fuel bytes state).isSome := by
  induction fuel generalizing bytes state with
  | zero => exact absurd hfuel (Nat.not_lt_zero _)
  | succ fuel ih =>
    rw [windowSpans]
    split_ifs with hlen
    · have hmin := (clampProcessed_bounds hlen (func state (bytes.take bufferSize)).2).1
      have hle : (bytes.take bufferSize).length ≤ bytes.length := by
        rw [List.length_take]
        exact min_le_right _ _
      rw [Option.isSome_map]
      apply ih
      rw [List.length_drop]
      omega
    · rfl

end CppMisc.Myio
