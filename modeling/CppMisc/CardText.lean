import CppMisc.CardReader

/-! What a text of cards means: the cards of `read_cards` by position, and the way back
from cards to text. -/
namespace CppMisc.Cards

def suitLetters : List (UInt8 × Suit) :=
  [(0x53, .spades), (0x73, .spades), (0x44, .diamonds), (0x64, .diamonds),
    (0x48, .hearts), (0x68, .hearts), (0x43, .clubs), (0x63, .clubs)]

def faceLetters : List (UInt8 × Face) :=
  [(0x51, .queen), (0x71, .queen), (0x4B, .king), (0x6B, .king), (0x54, .ten), (0x74, .ten),
    (0x41, .ace), (0x61, .ace), (0x39, .nine), (0x4A, .jack), (0x6A, .jack)]

/-- The card at position `i`: a suit letter there and a face letter behind it. -/
def cardAt (data : List UInt8) (i : ℕ) : Option Card := do
  let a ← data[i]?
  let b ← data[i + 1]?
  let suit ← suitLetters.lookup a
  let face ← faceLetters.lookup b
  some ⟨suit, face⟩

lemma forall_byte {P : UInt8 → Prop} (h : ∀ i : Fin 256, P (UInt8.ofFin i)) (c : UInt8) : P c :=
  h c.toFin

lemma suitLetters_lookup : ∀ c : UInt8,
    suitLetters.lookup c = if toSuit c = .invalid then none else some (toSuit c) := by
  apply forall_byte
  decide +kernel

lemma faceLetters_lookup : ∀ c : UInt8,
    faceLetters.lookup c = if toFace c = .invalid then none else some (toFace c) := by
  apply forall_byte
  decide +kernel

lemma cardOf_eq (a b : UInt8) :
    cardOf a b = (suitLetters.lookup a).bind fun suit =>
      (faceLetters.lookup b).bind fun face => some ⟨suit, face⟩ := by
  rw [cardOf, suitLetters_lookup, faceLetters_lookup]
  by_cases ha : toSuit a = .invalid
  · simp [ha]
  · by_cases hb : toFace b = .invalid
    · simp [ha, hb]
    · simp [ha, hb]

lemma cardAt_zero (a b : UInt8) (rest : List UInt8) : cardAt (a :: b :: rest) 0 = cardOf a b := by
  rw [cardOf_eq]
  rfl

lemma cardAt_succ (a : UInt8) (data : List UInt8) (i : ℕ) :
    cardAt (a :: data) (i + 1) = cardAt data i := rfl

lemma adjacentCards_eq (data : List UInt8) :
    adjacentCards data = (List.range data.length).filterMap (cardAt data) := by
  induction data with
  | nil => rfl
  | cons a data ih =>
    have hrest : (List.range data.length).filterMap (cardAt (a :: data) ∘ Nat.succ) =
        adjacentCards data := by
      rw [ih]
      exact congrArg (fun f => (List.range data.length).filterMap f) (funext (cardAt_succ a data))
    rw [List.length_cons, List.range_succ_eq_map]
    cases data with
    | nil => rfl
    | cons b rest =>
      rw [List.filterMap_cons, List.filterMap_map, hrest, cardAt_zero, adjacentCards]
      cases cardOf a b with
      | none => rfl
      | some card => rfl

/-- `read_cards` finds the cards of all positions, in the order of the positions. -/
theorem readCards_positions (past : UInt8) (data : List UInt8) :
    readCards past data = (List.range data.length).filterMap (cardAt data) := by
  rw [readCards_eq, adjacentCards_eq]

def Suit.toChar : Suit → UInt8
  | .invalid => 0x00
  | .spades => 0x53
  | .diamonds => 0x44
  | .hearts => 0x48
  | .clubs => 0x43

def Face.toChar : Face → UInt8
  | .invalid => 0x00
  | .queen => 0x51
  | .king => 0x4B
  | .ten => 0x54
  | .ace => 0x41
  | .nine => 0x39
  | .jack => 0x4A

def Card.toString (card : Card) : List UInt8 := [card.suit.toChar, card.face.toChar]

def Card.Valid (card : Card) : Prop := card.suit ≠ .invalid ∧ card.face ≠ .invalid

/-- The character itself, or for a capital letter its small letter. -/
def SameLetter (c x : UInt8) : Prop := x = c ∨ (0x41 ≤ c ∧ c ≤ 0x5A ∧ x = c + 0x20)

/-- A card in a text, as it is written there, and the bytes up to the next one. -/
structure Entry where
  card : Card
  written : List UInt8
  junk : List UInt8

structure Entry.WellFormed (e : Entry) : Prop where
  valid : e.card.Valid
  written : List.Forall₂ SameLetter e.card.toString e.written
  junk : ∀ c ∈ e.junk, c ∉ suitLetters.map Prod.fst

lemma toSuit_sameLetter {s : Suit} {x : UInt8} (h : SameLetter s.toChar x) : toSuit x = s := by
  rcases h with rfl | ⟨-, -, rfl⟩
  · cases s <;> rfl
  · cases s <;> rfl

lemma toFace_sameLetter {f : Face} {x : UInt8} (h : SameLetter f.toChar x) : toFace x = f := by
  rcases h with rfl | ⟨hlow, hhigh, rfl⟩
  · cases f <;> rfl
  · cases f
    case nine => exact absurd hlow (by decide)
    all_goals rfl

lemma toSuit_junk {c : UInt8} (h : c ∉ suitLetters.map Prod.fst) : toSuit c = .invalid := by
  by_contra hsuit
  have hlookup := suitLetters_lookup c
  rw [if_neg hsuit] at hlookup
  obtain ⟨first, last, hsplit, -⟩ := List.lookup_eq_some_iff.mp hlookup
  apply h
  rw [hsplit, List.map_append, List.map_cons]
  exact List.mem_append_right _ List.mem_cons_self

lemma adjacentCards_junk {junk : List UInt8} (h : ∀ c ∈ junk, toSuit c = .invalid)
    (rest : List UInt8) : adjacentCards (junk ++ rest) = adjacentCards rest := by
  induction junk with
  | nil => rfl
  | cons c junk ih =>
    rw [List.cons_append, adjacentCards_cons (h c List.mem_cons_self)]
    exact ih fun b hb => h b (List.mem_cons_of_mem c hb)

lemma adjacentCards_written {card : Card} (hvalid : card.Valid) {written : List UInt8}
    (h : List.Forall₂ SameLetter card.toString written) (rest : List UInt8) :
    adjacentCards (written ++ rest) = card :: adjacentCards rest := by
  obtain ⟨suit, face⟩ := card
  obtain ⟨hsuit, hface⟩ := hvalid
  rcases h with _ | ⟨hx, _ | ⟨hy, _ | _⟩⟩
  rename_i x y
  have hx : toSuit x = suit := toSuit_sameLetter hx
  have hy : toFace y = face := toFace_sameLetter hy
  have hend : toSuit y = .invalid := toSuit_face (by rw [hy]; exact hface)
  simp only [List.cons_append, List.nil_append, adjacentCards, adjacentCards_cons hend]
  rw [cardOf, hx, hy, if_neg (by simp [hsuit, hface])]
  rfl

lemma adjacentCards_entries (entries : List Entry) (h : ∀ e ∈ entries, e.WellFormed) :
    adjacentCards (entries.flatMap fun e => e.written ++ e.junk) = entries.map Entry.card := by
  induction entries with
  | nil => rfl
  | cons e entries ih =>
    have he := h e List.mem_cons_self
    rw [List.flatMap_cons, List.append_assoc, adjacentCards_written he.valid he.written,
      adjacentCards_junk fun c hc => toSuit_junk (he.junk c hc),
      ih fun b hb => h b (List.mem_cons_of_mem e hb)]
    rfl

lemma cardOf_valid {a b : UInt8} {card : Card} (h : cardOf a b = some card) : card.Valid := by
  unfold cardOf at h
  split_ifs at h with hinvalid
  obtain rfl := Option.some.inj h
  exact not_or.mp hinvalid

lemma adjacentCards_valid {data : List UInt8} {card : Card} (h : card ∈ adjacentCards data) :
    card.Valid := by
  fun_induction adjacentCards data with
  | case1 => exact absurd h List.not_mem_nil
  | case2 a => exact absurd h List.not_mem_nil
  | case3 a b rest ih =>
    rcases List.mem_append.mp h with hfirst | hrest
    · exact cardOf_valid (Option.mem_toList.mp hfirst)
    · exact ih hrest

lemma adjacentCards_toString (cards : List Card) (h : ∀ card ∈ cards, card.Valid) :
    adjacentCards (cards.flatMap Card.toString) = cards := by
  induction cards with
  | nil => rfl
  | cons card cards ih =>
    have hself : List.Forall₂ SameLetter card.toString card.toString :=
      List.forall₂_same.mpr fun c _ => .inl rfl
    rw [List.flatMap_cons, adjacentCards_written (h card List.mem_cons_self) hself,
      ih fun b hb => h b (List.mem_cons_of_mem card hb)]

/-- Text and cards. Cards written down in any case come back from between any bytes without
a suit letter, and what `read_cards` found comes back from its own text. -/
theorem readCards_roundTrip (past past' : UInt8) :
    (∀ (before : List UInt8) (entries : List Entry), (∀ c ∈ before, c ∉ suitLetters.map Prod.fst) →
      (∀ e ∈ entries, e.WellFormed) →
        readCards past (before ++ entries.flatMap fun e => e.written ++ e.junk) =
          entries.map Entry.card) ∧
    ∀ data,
      readCards past ((readCards past' data).flatMap Card.toString) = readCards past' data := by
  simp only [readCards_eq]
  constructor
  · intro before entries hbefore hentries
    rw [adjacentCards_junk fun c hc => toSuit_junk (hbefore c hc),
      adjacentCards_entries entries hentries]
  · intro data
    exact adjacentCards_toString _ fun card hcard => adjacentCards_valid hcard

/-- A small nine of spades and a queen of hearts, with `x`, `Q` and `9` around them. -/
theorem readCards_roundTrip_two :
    readCards 0 [0x78, 0x73, 0x39, 0x51, 0x20, 0x48, 0x51, 0x39] =
      [⟨.spades, .nine⟩, ⟨.hearts, .queen⟩] :=
  (readCards_roundTrip 0 0).1 [0x78]
    [⟨⟨.spades, .nine⟩, [0x73, 0x39], [0x51, 0x20]⟩, ⟨⟨.hearts, .queen⟩, [0x48, 0x51], [0x39]⟩]
    (by simp [suitLetters]) (by
      intro e he
      rcases List.mem_pair.mp he with rfl | rfl
      · exact ⟨by simp [Card.Valid], .cons (.inr (by decide)) (.cons (.inl rfl) .nil),
          by simp [suitLetters]⟩
      · exact ⟨by simp [Card.Valid], .cons (.inl rfl) (.cons (.inl rfl) .nil),
          by simp [suitLetters]⟩)

end CppMisc.Cards
