import CppMisc.CardReader
import CppMisc.FileWindows
import CppMisc.ListRows

/-! The two ways in which `main` of `card.cc` gets its bytes. The callback of the `-` mode
takes the whole span and answers that it has processed ten bytes of it, so all but the
first ten bytes of the content are taken twice; and behind the last call of the callback
`read_block_by_block` moves bytes out of the range of its buffer, so the mode never comes to
`read_cards`. -/
namespace CppMisc.Cards
open ListRows Myio

def appendSpan : BlockFunc (List UInt8) := fun buffer span => (buffer ++ span, 10)

def dashCards (past : UInt8) (fuel : ℕ) (content : List UInt8) : Option (Ending (List Card)) :=
  (readBlockByBlock appendSpan 20 fuel (CFile.opened content) []).map fun last =>
    match ending 20 last with
    | .returned buffer => .returned (readCards past buffer)
    | .outOfRange => .outOfRange

/-- The buffer of the `-` mode when the callback has been called for the last time. -/
def dashBuffer (fuel : ℕ) (content : List UInt8) : Option (List UInt8) :=
  (readBlockByBlock appendSpan 20 fuel (CFile.opened content) []).map fun last => last.2.1

def pathCards (past : UInt8) (content : List UInt8) : List Card :=
  readCards past (readAllBytes (CFile.opened content))

def stats (cards : List Card) (card : Card) : ℕ := cards.count card

def assembled (bytes : List UInt8) : List UInt8 :=
  if bytes = [] then [] else bytes.take 20 ++ assembled (bytes.drop 10)
termination_by bytes.length
decreasing_by
  rename_i h
  have hpos := List.length_pos_iff.mpr h
  rw [List.length_drop]
  omega

lemma windowSpans_appendSpan (fuel : ℕ) (bytes buffer : List UInt8) (h : bytes.length < fuel) :
    ∃ spans, windowSpans appendSpan 20 fuel bytes buffer =
      some (buffer ++ assembled bytes, spans) := by
  induction fuel generalizing bytes buffer with
  | zero => exact absurd h (Nat.not_lt_zero _)
  | succ fuel ih =>
    rw [windowSpans, assembled]
    by_cases hnil : bytes = []
    · simp [hnil, appendSpan]
    · have hpos := List.length_pos_iff.mpr hnil
      have htake : (bytes.take 20).length > 0 := by
        rw [List.length_take]
        omega
      have hdrop : bytes.drop (clampProcessed (bytes.take 20).length 10) = bytes.drop 10 := by
        rcases Nat.le_total 10 (bytes.take 20).length with hten | hten
        · rw [clampProcessed_of_le (by norm_num) hten]
        · rw [clampProcessed_of_ge htake hten, List.length_take]
          rw [List.length_take] at hten
          rw [List.drop_eq_nil_of_le (by omega), List.drop_eq_nil_of_le (by omega)]
      obtain ⟨spans, hspans⟩ := ih (bytes.drop 10) (buffer ++ bytes.take 20)
        (by rw [List.length_drop]; omega)
      simp only [appendSpan, htake, if_true, hdrop, if_neg hnil, ← List.append_assoc]
      rw [hspans]
      exact ⟨_, rfl⟩

lemma dashBuffer_eq {fuel : ℕ} {content : List UInt8} (h : content.length < fuel) :
    dashBuffer fuel content = some (assembled content) := by
  obtain ⟨spans, hspans⟩ := windowSpans_appendSpan fuel content [] h
  have hawaits : Reader.Awaits 20
      (⟨CFile.opened content, List.replicate 20 0, true, 0, []⟩ : Reader (List UInt8)) content :=
    ⟨by simp, by norm_num, by simp [CFile.opened, CFile.rest], by simp⟩
  have hrounds := hawaits.rounds (by norm_num [sizeMod]) appendSpan fuel
  rw [hspans] at hrounds
  obtain ⟨last, hlast, hstate⟩ := Option.map_eq_some_iff.mp hrounds
  have hbuffer : last.1.state = assembled content := congrArg Prod.fst hstate
  rw [dashBuffer, readBlockByBlock, if_neg (by norm_num), if_neg (by simp [CFile.opened]), hlast]
  simp only [Option.map_some, hbuffer]

lemma dashCards_eq_outOfRange (past : UInt8) (fuel : ℕ) (content : List UInt8) :
    dashCards past fuel content = (dashBuffer fuel content).map fun _ => .outOfRange := by
  unfold dashCards dashBuffer
  cases h : readBlockByBlock appendSpan 20 fuel (CFile.opened content) [] with
  | none => rfl
  | some last =>
    have hending := readBlockByBlock_ending (by norm_num) (by norm_num [sizeMod]) rfl h
    simp only [Option.map_some, hending]

lemma readAllBytes_opened (content : List UInt8) :
    readAllBytes (CFile.opened content) = content := by
  simp [readAllBytes, CFile.seek_end, CFile.seek_set, CFile.opened, CFile.tell, CFile.read,
    CFile.rest]

lemma pathCards_eq (past : UInt8) (content : List UInt8) :
    pathCards past content = adjacentCards content := by
  rw [pathCards, readAllBytes_opened, readCards_eq]

/-- The card that the last byte of `xs` forms with the first of `ys`. -/
def junction (xs ys : List UInt8) : Option Card :=
  xs.getLast?.bind fun a => ys.head?.bind fun b => cardOf a b

/-- No block of ten bytes but the first has a card in it, and the last byte of no span
forms a card with the first byte of the next. -/
def Clean (content : List UInt8) : Prop :=
  ∀ k, 10 * (k + 1) < content.length →
    adjacentCards ((content.drop (10 * (k + 1))).take 10) = [] ∧
      junction ((content.drop (10 * k)).take 20) (content.drop (10 * (k + 1))) = none

lemma adjacentCards_append (xs ys : List UInt8) :
    adjacentCards (xs ++ ys) = adjacentCards xs ++ (junction xs ys).toList ++ adjacentCards ys := by
  match xs with
  | [] => simp [adjacentCards, junction]
  | [a] =>
    cases ys with
    | nil => simp [adjacentCards, junction]
    | cons b ys => simp [adjacentCards, junction]
  | a :: b :: xs =>
    have ih := adjacentCards_append (b :: xs) ys
    simp only [List.cons_append] at ih
    simp only [List.cons_append, adjacentCards, ih, List.append_assoc, junction,
      List.getLast?_cons_cons]

lemma junction_head {xs ys zs : List UInt8} (h : ys.head? = zs.head?) :
    junction xs ys = junction xs zs := by
  rw [junction, junction, h]

lemma assembled_head (bytes : List UInt8) : (assembled bytes).head? = bytes.head? := by
  cases bytes with
  | nil => rw [assembled, if_pos rfl]
  | cons b bytes =>
    rw [assembled, if_neg (List.cons_ne_nil b bytes)]
    rfl

lemma cards_split {content : List UInt8} (h : 10 < content.length) :
    ∃ cards, adjacentCards content = cards ++ adjacentCards (content.drop 10) ∧
      adjacentCards (assembled content) =
        cards ++ (adjacentCards ((content.drop 10).take 10) ++
          (junction (content.take 20) (content.drop 10)).toList ++
            adjacentCards (assembled (content.drop 10))) := by
  have hne : content ≠ [] := List.ne_nil_of_length_pos (by omega)
  have htwenty : content.take 20 = content.take 10 ++ (content.drop 10).take 10 :=
    List.take_add (i := 10) (j := 10)
  have hhead : ((content.drop 10).take 10).head? = (content.drop 10).head? := by
    rw [List.head?_take, if_neg (by norm_num)]
  refine ⟨adjacentCards (content.take 10) ++
    (junction (content.take 10) (content.drop 10)).toList, ?_, ?_⟩
  · conv_lhs => rw [← List.take_append_drop 10 content]
    rw [adjacentCards_append]
  · rw [assembled, if_neg hne, adjacentCards_append,
      junction_head (assembled_head (content.drop 10))]
    conv_lhs => enter [1, 1]; rw [htwenty, adjacentCards_append, junction_head hhead]
    simp only [List.append_assoc]

lemma assembled_short {content : List UInt8} (h : content.length ≤ 10) :
    assembled content = content := by
  have hrest : content.drop 10 = [] := List.drop_eq_nil_of_le h
  by_cases hnil : content = []
  · rw [hnil, assembled, if_pos rfl]
  · rw [assembled, if_neg hnil, hrest, assembled, if_pos rfl, List.append_nil]
    exact List.take_of_length_le (by omega)

/-- No card is lost. -/
lemma assembled_length_le (content : List UInt8) :
    (adjacentCards content).length ≤ (adjacentCards (assembled content)).length := by
  induction content using row_induction (by norm_num : 0 < 10) with
  | short content hshort => rw [assembled_short hshort]
  | long content hlong ih =>
    obtain ⟨cards, hpath, hdash⟩ := cards_split hlong
    rw [hpath, hdash]
    simp only [List.length_append]
    omega

lemma clean_iff_drop {content : List UInt8} (h : 10 < content.length) :
    Clean content ↔
      (adjacentCards ((content.drop 10).take 10) = [] ∧
        junction (content.take 20) (content.drop 10) = none) ∧ Clean (content.drop 10) := by
  have hdrop : ∀ k, (content.drop 10).drop (10 * k) = content.drop (10 * (k + 1)) := by
    intro k
    rw [List.drop_drop, Nat.mul_succ, Nat.add_comm]
  unfold Clean
  simp only [hdrop, List.length_drop]
  constructor
  · intro hclean
    refine ⟨hclean 0 h, ?_⟩
    intro k hk
    exact hclean (k + 1) (by omega)
  · rintro ⟨hfirst, hrest⟩ k hk
    cases k with
    | zero => exact hfirst
    | succ k => exact hrest k (by omega)

lemma assembled_eq_iff (content : List UInt8) :
    ((adjacentCards (assembled content)).length = (adjacentCards content).length →
        Clean content) ∧
      (Clean content → adjacentCards (assembled content) = adjacentCards content) := by
  induction content using row_induction (by norm_num : 0 < 10) with
  | short content hshort =>
    rw [assembled_short hshort]
    refine ⟨?_, fun _ => rfl⟩
    intro _ k hk
    omega
  | long content hlong ih =>
    obtain ⟨cards, hpath, hdash⟩ := cards_split hlong
    obtain ⟨hlen, heq⟩ := ih
    have hle := assembled_length_le (content.drop 10)
    rw [clean_iff_drop hlong, hpath, hdash]
    constructor
    · intro h
      simp only [List.length_append] at h
      refine ⟨⟨?_, ?_⟩, hlen (by omega)⟩
      · exact List.eq_nil_of_length_eq_zero (by omega)
      · rw [← Option.toList_eq_nil_iff]
        exact List.eq_nil_of_length_eq_zero (by omega)
    · rintro ⟨⟨hblock, hjunction⟩, hclean⟩
      rw [hblock, hjunction, heq hclean]
      rfl

/-- The `-` mode never gets to any cards, whatever the content. What its callback has assembled
by then holds the cards of the path mode, and their counts, exactly if no overlap of two spans
and no seam between them has a card in it. -/
theorem dashCards_never (past past' : UInt8) (content : List UInt8) :
    (∀ fuel, content.length < fuel → dashCards past fuel content = some .outOfRange) ∧
      (∀ fuel cards, dashCards past fuel content ≠ some (.returned cards)) ∧
      ∃ buffer, (∀ fuel, content.length < fuel → dashBuffer fuel content = some buffer) ∧
        (readCards past buffer = pathCards past' content ↔ Clean content) ∧
        (stats (readCards past buffer) = stats (pathCards past' content) ↔ Clean content) := by
  obtain ⟨hlen, heq⟩ := assembled_eq_iff content
  refine ⟨fun fuel hfuel => ?_, fun fuel cards h => ?_, _, fun fuel => dashBuffer_eq, ?_, ?_⟩
  · rw [dashCards_eq_outOfRange, dashBuffer_eq hfuel, Option.map_some]
  · rw [dashCards_eq_outOfRange] at h
    obtain ⟨buffer, -, hbuffer⟩ := Option.map_eq_some_iff.mp h
    cases hbuffer
  · rw [readCards_eq, pathCards_eq]
    exact ⟨fun h => hlen (congrArg List.length h), heq⟩
  · rw [readCards_eq, pathCards_eq]
    constructor
    · intro h
      have hperm : (adjacentCards (assembled content)).Perm (adjacentCards content) :=
        List.perm_iff_count.mpr (congrFun h)
      exact hlen hperm.length_eq
    · intro hclean
      rw [heq hclean]

/-- Ten blanks and the nine of spades: the move out of range comes before any cards, and the
second span has brought the card again. -/
theorem dashCards_not_pathCards :
    dashCards 0 13 (List.replicate 10 0x20 ++ [0x53, 0x39]) ≠
        some (.returned (pathCards 0 (List.replicate 10 0x20 ++ [0x53, 0x39]))) ∧
      (dashBuffer 13 (List.replicate 10 0x20 ++ [0x53, 0x39])).map (readCards 0) ≠
        some (pathCards 0 (List.replicate 10 0x20 ++ [0x53, 0x39])) := by
  rw [dashCards_eq_outOfRange, dashBuffer_eq (by decide), Option.map_some, Option.map_some,
    readCards_eq, pathCards_eq]
  refine ⟨by simp, fun hmode => ?_⟩
  have hclean := (assembled_eq_iff _).1 (congrArg List.length (Option.some.inj hmode))
  exact absurd (hclean 0 (by decide)).1 (by decide)

end CppMisc.Cards
