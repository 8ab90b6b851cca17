import Mathlib

/-! `read_cards` of `card.cc`. The iterator `start` is the list of the bytes from it to
`end`. A scan also keeps how many bytes were left at each dereference of `start`; one at
the end sees the byte behind the span. -/
namespace CppMisc.Cards

inductive Suit
  | invalid
  | spades
  | diamonds
  | hearts
  | clubs
  deriving DecidableEq, Repr

inductive Face
  | invalid
  | queen
  | king
  | ten
  | ace
  | nine
  | jack
  deriving DecidableEq, Repr

structure Card where
  suit : Suit
  face : Face
  deriving DecidableEq, Repr

/-- `Card::Invalid()` -/
def Card.invalid : Card := ⟨.invalid, .invalid⟩

def upper (c : UInt8) : UInt8 := c &&& 0xDF

def space (c : UInt8) : Bool :=
  c == 0x20 || c == 0x0A || c == 0x0D || c == 0x09 || c == 0x0B

def toFace (s : UInt8) : Face :=
  if s = 0x39 then .nine
  else match upper s with
    | 0x51 => .queen
    | 0x4B => .king
    | 0x54 => .ten
    | 0x41 => .ace
    | 0x4A => .jack
    | _ => .invalid

def toSuit (s : UInt8) : Suit :=
  match upper s with
  | 0x53 => .spades
  | 0x44 => .diamonds
  | 0x48 => .hearts
  | 0x43 => .clubs
  | _ => .invalid

structure Scan where
  start : List UInt8
  reads : List ℕ
  deriving DecidableEq, Repr

namespace Scan

def atEnd (s : Scan) : Bool := s.start.isEmpty

def deref (past : UInt8) (s : Scan) : UInt8 × Scan :=
  (s.start.headD past, { s with reads := s.reads ++ [s.start.length] })

def advance (s : Scan) : Scan := { s with start := s.start.tail }

@[simp] lemma deref_start (past : UInt8) (s : Scan) : (s.deref past).2.start = s.start := rfl

@[simp] lemma advance_start (s : Scan) : s.advance.start = s.start.tail := rfl

end Scan

def skipSpace (past : UInt8) (s : Scan) : Scan :=
  let r := s.deref past
  if space r.1 && !r.2.atEnd then skipSpace past r.2.advance else r.2
termination_by s.start.length
decreasing_by
  rename_i h
  have hne : r.2.start ≠ [] := by simpa [Scan.atEnd] using (Bool.and_eq_true_iff.mp h).2
  have hpos := List.length_pos_iff.mpr hne
  rw [Scan.deref_start] at hpos
  simp only [Scan.advance_start, Scan.deref_start, List.length_tail]
  omega

def getCard (past : UInt8) (s : Scan) : Card × Scan :=
  if s.atEnd then (Card.invalid, s)
  else
    let r := s.deref past
    let suit := toSuit r.1
    let s := r.2.advance
    if s.atEnd || suit == .invalid then (Card.invalid, s)
    else
      let r := s.deref past
      let face := toFace r.1
      if face = .invalid then (Card.invalid, r.2)
      else (⟨suit, face⟩, r.2.advance)

lemma skipSpace_length (past : UInt8) (s : Scan) :
    (skipSpace past s).start.length ≤ s.start.length := by
  fun_induction skipSpace past s with
  | case1 s r h ih =>
    refine ih.trans ?_
    simp [r]
  | case2 s r h => exact le_rfl

lemma getCard_length (past : UInt8) (s : Scan) :
    (getCard past s).2.start.length ≤ s.start.length - 1 := by
  unfold getCard
  dsimp only
  split_ifs with hend hsuit hface
  · simp [Scan.atEnd] at hend
    simp [hend]
  · simp
  · simp
  · simp

def readLoop (past : UInt8) (s : Scan) (result : List Card) : List Card × Scan :=
  if s.atEnd then (result, s)
  else
    let r := getCard past (skipSpace past s)
    readLoop past r.2 (if r.1 ≠ Card.invalid then result ++ [r.1] else result)
termination_by s.start.length
decreasing_by
  rename_i h
  have hne : s.start ≠ [] := by simpa [Scan.atEnd] using h
  have hpos := List.length_pos_iff.mpr hne
  have hskip := skipSpace_length past s
  have hget := getCard_length past (skipSpace past s)
  omega

def readCards (past : UInt8) (data : List UInt8) : List Card :=
  (readLoop past ⟨data, []⟩ []).1

/-- The card of two adjacent bytes, if the first is a suit and the second a face. -/
def cardOf (a b : UInt8) : Option Card :=
  if toSuit a = .invalid ∨ toFace b = .invalid then none else some ⟨toSuit a, toFace b⟩

def adjacentCards : List UInt8 → List Card
  | [] => []
  | [_] => []
  | a :: b :: rest => (cardOf a b).toList ++ adjacentCards (b :: rest)

/-! The loop finds exactly the cards of adjacent bytes. -/

lemma toSuit_space {c : UInt8} (h : space c = true) : toSuit c = .invalid := by
  simp only [space, Bool.or_eq_true, beq_iff_eq, or_assoc] at h
  rcases h with rfl | rfl | rfl | rfl | rfl <;> rfl

/-- A byte that ends a card does not begin another one. -/
lemma toSuit_face {c : UInt8} (h : toFace c ≠ .invalid) : toSuit c = .invalid := by
  unfold toFace at h
  split_ifs at h with hnine
  · rw [hnine]
    rfl
  · unfold toSuit
    split at h
    case h_6 => exact absurd rfl h
    all_goals
      rename_i hu
      rw [hu]
      rfl

lemma adjacentCards_cons {a : UInt8} (h : toSuit a = .invalid) (rest : List UInt8) :
    adjacentCards (a :: rest) = adjacentCards rest := by
  cases rest with
  | nil => rfl
  | cons b rest => simp [adjacentCards, cardOf, h]

lemma skipSpace_cards (past : UInt8) (s : Scan) :
    adjacentCards (skipSpace past s).start = adjacentCards s.start := by
  fun_induction skipSpace past s with
  | case1 s r h ih =>
    rw [ih]
    obtain ⟨hspace, hend⟩ := Bool.and_eq_true_iff.mp h
    obtain ⟨start, reads⟩ := s
    cases start with
    | nil => rfl
    | cons c rest => exact (adjacentCards_cons (toSuit_space hspace) rest).symm
  | case2 s r h => rfl

lemma getCard_cards (past : UInt8) (s : Scan) :
    adjacentCards s.start =
      (if (getCard past s).1 ≠ Card.invalid then [(getCard past s).1] else []) ++
        adjacentCards (getCard past s).2.start := by
  obtain ⟨start, reads⟩ := s
  match start with
  | [] => rfl
  | [a] => simp [getCard, Scan.atEnd, Scan.deref, Scan.advance, adjacentCards]
  | a :: b :: rest =>
    by_cases ha : toSuit a = .invalid
    · simp [getCard, Scan.atEnd, Scan.deref, Scan.advance, adjacentCards, cardOf, ha]
    · by_cases hb : toFace b = .invalid
      · simp [getCard, Scan.atEnd, Scan.deref, Scan.advance, adjacentCards, cardOf, ha, hb]
      · have hvalid : (⟨toSuit a, toFace b⟩ : Card) ≠ Card.invalid := by simp [Card.invalid, ha]
        simp [getCard, Scan.atEnd, Scan.deref, Scan.advance, adjacentCards, cardOf, ha, hb, hvalid,
          adjacentCards_cons (toSuit_face hb)]

lemma readLoop_cards (past : UInt8) (s : Scan) (result : List Card) :
    (readLoop past s result).1 = result ++ adjacentCards s.start := by
  fun_induction readLoop past s result with
  | case1 s result h =>
    have hnil : s.start = [] := by simpa [Scan.atEnd] using h
    simp [hnil, adjacentCards]
  | case2 s result h r ih =>
    simp only [dite_eq_ite] at ih
    rw [ih, ← skipSpace_cards past s, getCard_cards past (skipSpace past s)]
    split_ifs with hcard
    · simp [r]
    · simp [r]

/-- What `read_cards` returns does not depend on the byte behind the span. -/
lemma readCards_eq (past : UInt8) (data : List UInt8) :
    readCards past data = adjacentCards data := by
  rw [readCards, readLoop_cards, List.nil_append]

end CppMisc.Cards
