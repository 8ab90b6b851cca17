import CppMisc.FileReader

/-! The rounds of `read_block_by_block` as windows over the bytes that the file delivers,
what `shiftBuffer` does in each of them, and where `read_all_bytes` differs. -/
namespace CppMisc.Myio

variable {σ : Type*} {func : BlockFunc σ} {n : ℕ}

/-- The round of a callback in `state` when `bytes` are still to be processed. -/
structure Round.Presents (func : BlockFunc σ) (n : ℕ) (state : σ) (bytes : List UInt8)
    (r : Round) : Prop where
  span : r.span = bytes.take n
  answer : r.answer = (func state r.span).2
  processed : r.processed = clampProcessed r.span.length r.answer
  newOffset : r.newOffset = sizeSub r.span.length r.processed

inductive Windows (func : BlockFunc σ) (n : ℕ) : σ → List UInt8 → List Round → Prop
  | last {state : σ} {r : Round} (h : r.Presents func n state []) : Windows func n state [] [r]
  | next {state : σ} {bytes : List UInt8} {r : Round} {rounds : List Round} (hne : bytes ≠ [])
      (h : r.Presents func n state bytes)
      (rest : Windows func n (func state r.span).1 (bytes.drop r.processed) rounds) :
      Windows func n state bytes (r :: rounds)

lemma Reader.Awaits.presents {r : Reader σ} {bytes : List UInt8} (h : r.Awaits n bytes)
    (hsize : n < sizeMod) (func : BlockFunc σ) :
    (r.round func n).2.Presents func n r.state bytes := by
  have hremaining : sizeSub n r.offset = n - r.offset := sizeSub_eq h.offset_lt.le hsize
  obtain ⟨hspan, hcount, -⟩ := h.fill
  unfold Reader.round
  simp only [hremaining, hspan, hcount, List.take_left]
  exact ⟨rfl, rfl, rfl, rfl⟩

lemma Reader.Awaits.windows (hsize : n < sizeMod) {fuel : ℕ} {r : Reader σ} {bytes : List UInt8}
    (h : r.Awaits n bytes) {last : Reader σ × List Round}
    (hrun : r.rounds func n fuel = some last) : Windows func n r.state bytes last.2 := by
  induction fuel generalizing r bytes last with
  | zero => exact absurd hrun (by simp [Reader.rounds])
  | succ fuel ih =>
    have hround := h.presents hsize func
    obtain ⟨hspan, hstate, hnext⟩ := h.round hsize func
    have hpos := h.offset_lt
    rw [Reader.rounds] at hrun
    split_ifs at hrun with hlen
    · have hne : bytes ≠ [] := by
        rintro rfl
        simp [hspan] at hlen
      obtain ⟨rest, hrest, rfl⟩ := Option.map_eq_some_iff.mp hrun
      refine .next hne hround ?_
      rw [hround.processed, hround.answer, hspan, ← hstate]
      exact ih (hnext hne) hrest
    · obtain rfl := Option.some.inj hrun
      have hnil : bytes = [] := by
        rw [hspan, List.length_take] at hlen
        exact List.eq_nil_of_length_eq_zero (by omega)
      subst hnil
      exact .last hround

lemma Reader.rounds_mono {fuel : ℕ} {r : Reader σ} {last : Reader σ × List Round}
    (h : r.rounds func n fuel = some last) {more : ℕ} (hmore : fuel ≤ more) :
    r.rounds func n more = some last := by
  induction fuel generalizing r more last with
  | zero => exact absurd h (by simp [Reader.rounds])
  | succ fuel ih =>
    obtain ⟨more, rfl⟩ : ∃ k, more = k + 1 := ⟨more - 1, by omega⟩
    rw [Reader.rounds] at h ⊢
    split_ifs at h ⊢ with hlen
    · obtain ⟨rest, hrest, hlast⟩ := Option.map_eq_some_iff.mp h
      rw [ih hrest (by omega), Option.map_some, hlast]
    · exact h

/-- The loop comes to an end, with the windows over what the file delivers. -/
lemma readBlockByBlock_rounds (func : BlockFunc σ) (hn : 1 ≤ n) (hsize : n < sizeMod)
    {file : CFile} (hbad : file.bad = false) (state : σ) :
    ∃ file' state' rounds,
      (∀ fuel, file.rest.length < fuel →
        readBlockByBlock func n fuel file state = some (file', state', rounds)) ∧
      Windows func n state file.rest rounds := by
  have hawaits : Reader.Awaits n
      (⟨file, List.replicate n 0, true, 0, state⟩ : Reader σ) file.rest :=
    ⟨List.length_replicate, hn, by simp, by simp⟩
  have hsome := windowSpans_isSome func n (file.rest.length + 1) file.rest state (by omega)
  rw [← hawaits.rounds hsize func, Option.isSome_map] at hsome
  obtain ⟨last, hlast⟩ := Option.isSome_iff_exists.mp hsome
  refine ⟨last.1.file, last.1.state, last.2, ?_, hawaits.windows hsize hlast⟩
  intro fuel hfuel
  rw [readBlockByBlock, if_neg (by omega), if_neg (by simp [hbad]),
    Reader.rounds_mono hlast (by omega), Option.map_some]

/-- How far the window moves: by the answer, but not beyond the span and by one at least. -/
def Round.advance (r : Round) : ℕ := max 1 (min r.answer r.span.length)

/-- Where the span of the `k`-th round begins. -/
def start (rounds : List Round) (k : ℕ) : ℕ := ((rounds.take k).map Round.advance).sum

/-- What the callback answers to one span after another. -/
def answers (func : BlockFunc σ) : σ → List (List UInt8) → List ℕ
  | _, [] => []
  | state, span :: spans => (func state span).2 :: answers func (func state span).1 spans

def processedBytes (rounds : List Round) : List UInt8 :=
  rounds.flatMap fun r => r.span.take r.advance

lemma clampProcessed_eq (available answer : ℕ) :
    clampProcessed available answer = max 1 (min answer available) := by
  unfold clampProcessed
  dsimp only
  split_ifs <;> omega

lemma Round.Presents.advance_eq {state : σ} {bytes : List UInt8} {r : Round}
    (h : r.Presents func n state bytes) : r.processed = r.advance := by
  rw [h.processed, clampProcessed_eq, Round.advance]

/-- As long as there are bytes, the window is not empty and it moves within its span. -/
lemma Round.Presents.bounds {state : σ} {bytes : List UInt8} {r : Round}
    (h : r.Presents func n state bytes) (hn : 1 ≤ n) (hne : bytes ≠ []) :
    0 < r.advance ∧ r.advance ≤ r.span.length ∧ r.span.length = min n bytes.length := by
  have hlen : r.span.length = min n bytes.length := by
    rw [h.span, List.length_take]
  have hpos := List.length_pos_iff.mpr hne
  rw [Round.advance]
  omega

lemma start_cons (r : Round) (rounds : List Round) (k : ℕ) :
    start (r :: rounds) (k + 1) = r.advance + start rounds k := by
  simp [start]

namespace Windows

variable {state : σ} {bytes : List UInt8} {rounds : List Round}

lemma ne_nil (h : Windows func n state bytes rounds) : rounds ≠ [] := by
  cases h with
  | last _ => exact List.cons_ne_nil _ _
  | next _ _ _ => exact List.cons_ne_nil _ _

lemma answers_eq (h : Windows func n state bytes rounds) :
    rounds.map Round.answer = answers func state (rounds.map Round.span) := by
  induction h with
  | last h => simp only [List.map_cons, List.map_nil, answers, h.answer]
  | next hne h rest ih => simp only [List.map_cons, answers, ih, h.answer]

lemma at_round (h : Windows func n state bytes rounds) (hn : 1 ≤ n) {k : ℕ} {r : Round}
    (hr : rounds[k]? = some r) :
    start rounds k ≤ bytes.length ∧ r.span = (bytes.drop (start rounds k)).take n ∧
      (r.span = [] ↔ k + 1 = rounds.length) := by
  induction h generalizing k with
  | @last state first h =>
    cases k with
    | zero =>
      obtain rfl := Option.some.inj hr
      simp [start, h.span]
    | succ k => simp at hr
  | @next state bytes first rounds hne h rest ih =>
    obtain ⟨hpos, hadvance, hlen⟩ := h.bounds hn hne
    cases k with
    | zero =>
      obtain rfl := Option.some.inj hr
      have hspan : first.span ≠ [] := List.ne_nil_of_length_pos (by omega)
      have hmore := List.length_pos_iff.mpr rest.ne_nil
      refine ⟨Nat.zero_le _, h.span, ?_⟩
      simp [hspan, rest.ne_nil]
    | succ k =>
      obtain ⟨hstart, hspan, hlast⟩ := ih (k := k) (by simpa using hr)
      rw [h.advance_eq] at hstart hspan
      rw [List.length_drop] at hstart
      rw [List.drop_drop] at hspan
      rw [start_cons, List.length_cons, Nat.succ_inj]
      exact ⟨by omega, hspan, hlast⟩

lemma length_le (h : Windows func n state bytes rounds) (hn : 1 ≤ n) :
    rounds.length ≤ bytes.length + 1 := by
  induction h with
  | last h => simp
  | next hne h rest ih =>
    obtain ⟨hpos, hadvance, hlen⟩ := h.bounds hn hne
    rw [h.advance_eq, List.length_drop] at ih
    rw [List.length_cons]
    omega

lemma processedBytes_eq (h : Windows func n state bytes rounds) (hn : 1 ≤ n) :
    processedBytes rounds = bytes := by
  induction h with
  | last h => simp [processedBytes, h.span]
  | @next state bytes r rounds hne h rest ih =>
    obtain ⟨hpos, hadvance, hlen⟩ := h.bounds hn hne
    have hprefix : r.span.take r.advance = bytes.take r.advance := by
      rw [h.span, List.take_take, min_eq_left (by omega)]
    rw [h.advance_eq] at ih
    rw [processedBytes, List.flatMap_cons, hprefix]
    exact (congrArg (_ ++ ·) ih).trans (List.take_append_drop _ _)

end Windows

/-- The loop as a sliding window. The callback gets the windows over the delivered bytes
up to the first empty one, and what it processes are these bytes. -/
theorem readBlockByBlock_windows (func : BlockFunc σ) (hn : 1 ≤ n) (hsize : n < sizeMod)
    (file : CFile) (hbad : file.bad = false) (state : σ) :
    ∃ file' state' rounds,
      (∀ fuel, file.rest.length < fuel →
        readBlockByBlock func n fuel file state = some (file', state', rounds)) ∧
      rounds.map Round.answer = answers func state (rounds.map Round.span) ∧
      (∀ k r, rounds[k]? = some r →
        r.span = (file.rest.drop (start rounds k)).take n ∧
          (r.span = [] ↔ k + 1 = rounds.length) ∧
          (r.span.length < n → start rounds k + r.span.length = file.rest.length)) ∧
      0 < rounds.length ∧ rounds.length ≤ file.rest.length + 1 ∧
      processedBytes rounds = file.rest := by
  obtain ⟨file', state', rounds, hrun, hwindows⟩ :=
    readBlockByBlock_rounds func hn hsize hbad state
  refine ⟨file', state', rounds, hrun, hwindows.answers_eq, ?_,
    List.length_pos_iff.mpr hwindows.ne_nil, hwindows.length_le hn, hwindows.processedBytes_eq hn⟩
  intro k r hr
  obtain ⟨hstart, hspan, hlast⟩ := hwindows.at_round hn hr
  refine ⟨hspan, hlast, ?_⟩
  intro hshort
  rw [hspan, List.length_take, List.length_drop] at hshort ⊢
  omega

/-- Three bytes by a callback that answers with nothing, two at a time. -/
theorem readBlockByBlock_windows_three :
    ∃ rounds : List Round,
      (∃ file' state', readBlockByBlock (fun (_ : Unit) _ => ((), 0)) 2 4
        (CFile.opened [0x53, 0x39, 0x20]) () = some (file', state', rounds)) ∧
      processedBytes rounds = [0x53, 0x39, 0x20] := by
  obtain ⟨file', state', rounds, hrun, -, -, -, -, hbytes⟩ :=
    readBlockByBlock_windows (fun (_ : Unit) _ => ((), 0)) (n := 2) one_le_two
      (by norm_num [sizeMod]) (CFile.opened [0x53, 0x39, 0x20]) rfl ()
  exact ⟨rounds, ⟨file', state', hrun 4 (by decide)⟩, hbytes⟩

/-- What `shiftBuffer` relies on: `available - processed` does not wrap, the `memmove` stays
in the buffer, and the next read has room. -/
structure Round.InRange (n : ℕ) (r : Round) : Prop where
  processed_le : r.processed ≤ r.span.length
  source : r.processed + r.newOffset ≤ n
  target : r.newOffset ≤ n
  offset_lt : r.newOffset < n

lemma Round.Presents.inRange {state : σ} {bytes : List UInt8} {r : Round}
    (h : r.Presents func n state bytes) (hn : 1 ≤ n) (hsize : n < sizeMod) (hne : bytes ≠ []) :
    r.InRange n := by
  obtain ⟨hpos, hadvance, hlen⟩ := h.bounds hn hne
  have hprocessed := h.advance_eq
  have hoffset := h.newOffset
  rw [sizeSub_eq (by omega) (by omega)] at hoffset
  exact ⟨by omega, by omega, by omega, by omega⟩

lemma Round.Presents.not_inRange {state : σ} {r : Round} (h : r.Presents func n state []) :
    r.span = [] ∧ r.processed = 1 ∧ r.newOffset = sizeMod - 1 := by
  have hspan : r.span = [] := by rw [h.span, List.take_nil]
  have hprocessed : r.processed = 1 := by
    rw [h.advance_eq, Round.advance, hspan]
    simp
  refine ⟨hspan, hprocessed, ?_⟩
  rw [h.newOffset, hspan, hprocessed]
  rfl

lemma Windows.inRange {state : σ} {bytes : List UInt8} {rounds : List Round}
    (h : Windows func n state bytes rounds) (hn : 1 ≤ n) (hsize : n < sizeMod) :
    (∀ r ∈ rounds.dropLast, r.InRange n) ∧
      ∃ r ∈ rounds, r.span = [] ∧ r.processed = 1 ∧ r.newOffset = sizeMod - 1 := by
  induction h with
  | @last state r h => exact ⟨by simp, r, List.mem_singleton_self r, h.not_inRange⟩
  | @next state bytes r rounds hne h rest ih =>
    obtain ⟨hinit, last, hmem, hlast⟩ := ih
    refine ⟨?_, last, List.mem_cons_of_mem r hmem, hlast⟩
    rw [List.dropLast_cons_of_ne_nil rest.ne_nil]
    intro round hround
    rcases List.mem_cons.mp hround with rfl | hround
    · exact h.inRange hn hsize hne
    · exact hinit round hround

/-- The loop over a file that is open never returns. -/
lemma readBlockByBlock_ending (hn : 1 ≤ n) (hsize : n < sizeMod) {file : CFile}
    (hbad : file.bad = false) {fuel : ℕ} {state : σ} {last : CFile × σ × List Round}
    (h : readBlockByBlock func n fuel file state = some last) : ending n last = .outOfRange := by
  rw [readBlockByBlock, if_neg (by omega), if_neg (by simp [hbad])] at h
  obtain ⟨⟨r, rounds⟩, hrun, rfl⟩ := Option.map_eq_some_iff.mp h
  have hawaits : Reader.Awaits n
      (⟨file, List.replicate n 0, true, 0, state⟩ : Reader σ) file.rest :=
    ⟨List.length_replicate, hn, by simp, by simp⟩
  obtain ⟨-, round, hmem, -, hprocessed, hoffset⟩ :=
    (hawaits.windows hsize hrun).inRange hn hsize
  have hmoves : round.moves n = false := by
    rw [Round.moves, decide_eq_false_iff_not]
    omega
  refine if_neg fun hall => ?_
  rw [List.all_eq_true.mp hall round hmem] at hmoves
  cases hmoves

/-- When the arithmetic of the buffer is in range in every round. All rounds but the last
are, and the last one, with nothing left, wraps. -/
theorem readBlockByBlock_inRange_iff (func : BlockFunc σ) (hn : 1 ≤ n) (hsize : n < sizeMod)
    (file : CFile) (state : σ) :
    ∃ file' state' rounds,
      (∀ fuel, file.rest.length < fuel →
        readBlockByBlock func n fuel file state = some (file', state', rounds)) ∧
      (∀ r ∈ rounds.dropLast, r.InRange n) ∧
      ((∀ r ∈ rounds, r.InRange n) ↔ file.bad = true) := by
  by_cases hbad : file.bad = true
  · refine ⟨file, state, [], ?_, by simp, by simp [hbad]⟩
    intro fuel _
    rw [readBlockByBlock, if_neg (by omega), if_pos hbad]
  · obtain ⟨file', state', rounds, hrun, hwindows⟩ :=
      readBlockByBlock_rounds func hn hsize (Bool.eq_false_of_not_eq_true hbad) state
    obtain ⟨hinit, r, hmem, hspan, hprocessed, -⟩ := hwindows.inRange hn hsize
    refine ⟨file', state', rounds, hrun, hinit, ?_⟩
    refine iff_of_false ?_ hbad
    intro hall
    have hle := (hall r hmem).processed_le
    rw [hspan, hprocessed] at hle
    exact Nat.not_succ_le_zero 0 hle

/-- Three bytes, two at a time: rounds in range, and then the one that is not. -/
theorem readBlockByBlock_inRange_iff_three :
    ∃ rounds : List Round,
      (∃ file' state', readBlockByBlock (fun (_ : Unit) _ => ((), 2)) 2 4
        (CFile.opened [0x53, 0x39, 0x20]) () = some (file', state', rounds)) ∧
      rounds.length = 3 ∧ (∀ r ∈ rounds.dropLast, r.InRange 2) ∧
      ¬ ∀ r ∈ rounds, r.InRange 2 := by
  obtain ⟨file', state', rounds, hrun, hinit, hiff⟩ :=
    readBlockByBlock_inRange_iff (fun (_ : Unit) _ => ((), 2)) (n := 2) one_le_two
      (by norm_num [sizeMod]) (CFile.opened [0x53, 0x39, 0x20]) ()
  have hfour := hrun 4 (by decide)
  have hlength : 3 = rounds.length :=
    Option.some.inj (congrArg
      (Option.map fun last : CFile × Unit × List Round => last.2.2.length) hfour)
  refine ⟨rounds, ⟨file', state', hfour⟩, hlength.symm, hinit, ?_⟩
  intro hall
  exact Bool.false_ne_true (hiff.mp hall)

/-- A file without a byte, read one byte at a time. -/
theorem readBlockByBlock_wraps :
    ∃ file' state' rounds, readBlockByBlock (fun (_ : Unit) _ => ((), 0)) 1 1 (CFile.opened []) () =
      some (file', state', rounds) ∧ ¬ ∀ r ∈ rounds, r.InRange 1 := by
  refine ⟨_, _, _, rfl, ?_⟩
  intro hall
  exact Nat.not_succ_le_zero 0 (hall _ List.mem_cons_self).processed_le

lemma CFile.rest_zero {file : CFile} (hpos : file.pos = 0) :
    file.rest = file.content.take file.limit := by
  rw [CFile.rest, hpos, List.drop_zero]

lemma readAllBytes_eq (file : CFile) :
    readAllBytes file = file.content.take file.limit ++
      List.replicate (file.content.length - (file.content.take file.limit).length) 0 := by
  have hall : (file.content.take file.limit).take file.content.length =
      file.content.take file.limit :=
    List.take_of_length_le (by rw [List.length_take]; exact min_le_right _ _)
  simp only [readAllBytes, CFile.seek_end, CFile.seek_set, CFile.tell, CFile.read, CFile.rest,
    List.drop_zero, hall]

lemma readAllBytes_eq_iff {file : CFile} (hlimit : file.limit ≤ file.content.length) :
    readAllBytes file = file.content.take file.limit ↔ file.limit = file.content.length := by
  rw [readAllBytes_eq, List.append_right_eq_self, List.replicate_eq_nil_iff, List.length_take]
  omega

/-- When the two readers agree. The loop hands out exactly the bytes that are delivered;
`read_all_bytes` returns them if and only if that is the whole content. -/
theorem readers_agree_iff (func : BlockFunc σ) (hn : 1 ≤ n) (hsize : n < sizeMod) (file : CFile)
    (hbad : file.bad = false) (hpos : file.pos = 0) (hlimit : file.limit ≤ file.content.length)
    (state : σ) :
    ∃ file' state' rounds,
      (∀ fuel, file.limit < fuel →
        readBlockByBlock func n fuel file state = some (file', state', rounds)) ∧
      processedBytes rounds = file.content.take file.limit ∧
      (readAllBytes file = processedBytes rounds ↔ file.limit = file.content.length) := by
  obtain ⟨file', state', rounds, hrun, hwindows⟩ :=
    readBlockByBlock_rounds func hn hsize hbad state
  have hbytes := hwindows.processedBytes_eq hn
  rw [CFile.rest_zero hpos] at hrun hbytes
  rw [List.length_take, min_eq_left hlimit] at hrun
  exact ⟨file', state', rounds, hrun, hbytes, by rw [hbytes, readAllBytes_eq_iff hlimit]⟩

/-- One byte of two arrives. -/
theorem readers_agree_iff_one :
    ∃ rounds : List Round,
      (∃ file' state', readBlockByBlock (fun (_ : Unit) _ => ((), 0)) 1 2
        ⟨false, [0x53, 0x39], 1, true, 0, false, false⟩ () = some (file', state', rounds)) ∧
      readAllBytes ⟨false, [0x53, 0x39], 1, true, 0, false, false⟩ ≠ processedBytes rounds := by
  obtain ⟨file', state', rounds, hrun, -, hiff⟩ :=
    readers_agree_iff (fun (_ : Unit) _ => ((), 0)) (n := 1) le_rfl (by norm_num [sizeMod])
      ⟨false, [0x53, 0x39], 1, true, 0, false, false⟩ rfl rfl one_le_two ()
  exact ⟨rounds, ⟨file', state', hrun 2 one_lt_two⟩, fun h => Nat.succ_ne_self 1 (hiff.mp h).symm⟩

/-- The file reports two bytes and delivers one; the second is made up. -/
theorem readAllBytes_pads :
    ∃ file' state' rounds,
      readBlockByBlock (fun (_ : Unit) _ => ((), 0)) 1 2
        ⟨false, [0x53, 0x39], 1, true, 0, false, false⟩ () = some (file', state', rounds) ∧
      processedBytes rounds = [0x53] ∧
      readAllBytes ⟨false, [0x53, 0x39], 1, true, 0, false, false⟩ = [0x53, 0] :=
  ⟨_, _, _, rfl, by decide, by decide⟩

end CppMisc.Myio
