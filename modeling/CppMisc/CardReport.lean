import CppMisc.CardInput
import CppMisc.CardText
import CppMisc.Numerals
import CppMisc.Tallies

/-! The summary that `main` of `card.cc` prints: how often each card was read, in the order of
the `unordered_map`, which nothing is known of. -/
namespace CppMisc.Cards
open Numerals Tallies

/-- The values of the `enum`s. -/
def Suit.value : Suit → ℕ
  | .invalid => 0
  | .spades => 1
  | .diamonds => 2
  | .hearts => 3
  | .clubs => 4

def Face.value : Face → ℕ
  | .invalid => 0
  | .queen => 1
  | .king => 2
  | .ten => 3
  | .ace => 4
  | .nine => 5
  | .jack => 6

/-- `CardHash` -/
def cardHash (c : Card) : ℕ := (c.suit.value <<< 8) ||| c.face.value

def intMax : ℕ := 2147483647

/-- `stats[c]++` for each of the cards; none where a counter goes beyond an `int`. -/
def counted (cards : List Card) : Option (List (Card × ℕ)) := tally intMax cards

/-- `"%i\t%s\t%i\t%x\n"` -/
def summaryRow (i : ℕ) (p : Card × ℕ) : List Char :=
  numeral false 10 i ++ '\t' :: (p.1.toString.map fun c => Char.ofNat c.toNat) ++
    '\t' :: numeral false 10 p.2 ++ '\t' :: numeral false 16 (cardHash p.1) ++ ['\n']

/-- The entries are those of the map, in its order. -/
def summary (entries : List (Card × ℕ)) : List Char :=
  "Card Summary\n#\tCard\tCount\n".toList ++
    (entries.zipIdx 1).flatMap fun r => summaryRow r.2 r.1

def cardText (c : Card) : List Char := c.toString.map fun b => Char.ofNat b.toNat

def rowFields (i : ℕ) (p : Card × ℕ) : List (List Char) :=
  [numeral false 10 i, cardText p.1, numeral false 10 p.2, numeral false 16 (cardHash p.1)]

lemma summaryRow_eq (i : ℕ) (p : Card × ℕ) :
    summaryRow i p = ['\t'].intercalate (rowFields i p) ++ ['\n'] := by
  simp [summaryRow, rowFields, cardText]

lemma cardText_injective : Function.Injective cardText := by
  have hsuits : ∀ s s' : Suit, Char.ofNat s.toChar.toNat = Char.ofNat s'.toChar.toNat → s = s' := by
    rintro (_ | _) (_ | _) h <;> first | rfl | exact absurd h (by decide)
  have hfaces : ∀ f f' : Face, Char.ofNat f.toChar.toNat = Char.ofNat f'.toChar.toNat → f = f' := by
    rintro (_ | _) (_ | _) h <;> first | rfl | exact absurd h (by decide)
  rintro ⟨s, f⟩ ⟨s', f'⟩ h
  obtain ⟨hs, hrest⟩ := List.cons.inj h
  obtain rfl := hsuits s s' hs
  obtain rfl := hfaces f f' (List.cons.inj hrest).1
  rfl

/-- No field has a tab or the end of a line in it. -/
lemma rowFields_clean (i : ℕ) (p : Card × ℕ) :
    ∀ field ∈ rowFields i p, '\t' ∉ field ∧ '\n' ∉ field := by
  have hdigit : ∀ d < 16, '\t' ≠ digitChar false d ∧ '\n' ≠ digitChar false d := by decide
  have hnumeral : ∀ base v, 1 < base → base ≤ 16 →
      '\t' ∉ numeral false base v ∧ '\n' ∉ numeral false base v := by
    intro base v hlow hhigh
    constructor
    · intro hc
      obtain ⟨d, hd, heq⟩ := numeral_digits false hlow hhigh v _ hc
      exact (hdigit d hd).1 heq
    · intro hc
      obtain ⟨d, hd, heq⟩ := numeral_digits false hlow hhigh v _ hc
      exact (hdigit d hd).2 heq
  have hcard : ∀ c : Card, '\t' ∉ cardText c ∧ '\n' ∉ cardText c := by
    rintro ⟨s, f⟩
    cases s <;> cases f <;> decide
  intro field hfield
  simp only [rowFields, List.mem_cons, List.not_mem_nil, or_false] at hfield
  rcases hfield with rfl | rfl | rfl | rfl
  · exact hnumeral 10 i (by norm_num) (by norm_num)
  · exact hcard p.1
  · exact hnumeral 10 p.2 (by norm_num) (by norm_num)
  · exact hnumeral 16 _ (by norm_num) (by norm_num)

lemma rowFields_injective {i i' : ℕ} {p p' : Card × ℕ} (h : rowFields i p = rowFields i' p') :
    p = p' ∧ i = i' := by
  have hread : ∀ v, readNumeral 10 (numeral false 10 v) = some v :=
    readNumeral_numeral false (by norm_num) (by norm_num)
  obtain ⟨hi, hrest⟩ := List.cons.inj h
  obtain ⟨hcard, hrest⟩ := List.cons.inj hrest
  have hcount := congrArg (readNumeral 10) (List.cons.inj hrest).1
  have hindex := congrArg (readNumeral 10) hi
  rw [hread, hread, Option.some.injEq] at hcount hindex
  exact ⟨Prod.ext (cardText_injective hcard) hcount, hindex⟩

/-- A row without the end of its line. -/
lemma rowLine_injective {i i' : ℕ} {p p' : Card × ℕ}
    (h : ['\t'].intercalate (rowFields i p) = ['\t'].intercalate (rowFields i' p')) :
    p = p' ∧ i = i' := by
  have hsplit : ∀ i p, (['\t'].intercalate (rowFields i p)).splitOn '\t' = rowFields i p :=
    fun i p => List.splitOn_intercalate _ (fun field hfield =>
      (rowFields_clean i p field hfield).1) (List.cons_ne_nil _ _)
  have hfields := congrArg (List.splitOn '\t') h
  rw [hsplit, hsplit] at hfields
  exact rowFields_injective hfields

lemma splitOn_lines {α : Type*} [DecidableEq α] (d : α) {lines : List (List α)}
    (h : ∀ line ∈ lines, d ∉ line) :
    (lines.flatMap (· ++ [d])).splitOn d = lines ++ [[]] := by
  induction lines with
  | nil => simp
  | cons line lines ih =>
    rw [List.forall_mem_cons] at h
    rw [List.flatMap_cons, List.append_assoc, List.singleton_append,
      List.splitOn_append_cons_self, List.splitOn_eq_singleton h.1, ih h.2]
    rfl

/-- The text tells the entries and their order. -/
lemma summary_injective : Function.Injective summary := by
  let line : (Card × ℕ) × ℕ → List Char := fun r => ['\t'].intercalate (rowFields r.2 r.1)
  have hline : Function.Injective line := fun r r' h =>
    Prod.ext (rowLine_injective h).1 (rowLine_injective h).2
  have hclean : ∀ r, '\n' ∉ line r := by
    intro r
    have hfields := rowFields_clean r.2 r.1
    simp only [rowFields, List.forall_mem_cons] at hfields
    simp [line, rowFields, hfields]
  have hlines : ∀ entries : List (Card × ℕ),
      ((entries.zipIdx 1).flatMap fun r => summaryRow r.2 r.1).splitOn '\n' =
        (entries.zipIdx 1).map line ++ [[]] := by
    intro entries
    have hrows : ((entries.zipIdx 1).flatMap fun r => summaryRow r.2 r.1) =
        ((entries.zipIdx 1).map line).flatMap (· ++ ['\n']) := by
      rw [List.flatMap_map]
      exact List.flatMap_congr fun r _ => summaryRow_eq r.2 r.1
    rw [hrows, splitOn_lines]
    intro text htext
    obtain ⟨r, -, rfl⟩ := List.mem_map.mp htext
    exact hclean r
  intro es es' h
  have hsplit := congrArg (List.splitOn '\n') (List.append_cancel_left h)
  rw [hlines, hlines] at hsplit
  have hindexed := (List.map_injective_iff.mpr hline) (List.append_cancel_right hsplit)
  have hentries := congrArg (List.map Prod.fst) hindexed
  rwa [List.zipIdx_map_fst, List.zipIdx_map_fst] at hentries

/-- Two files can have the same summary exactly where they have the same cards as often. -/
theorem summary_eq_iff {past past' : UInt8} {data data' : List UInt8}
    {counters counters' : List (Card × ℕ)} (h : counted (readCards past data) = some counters)
    (h' : counted (readCards past' data') = some counters') :
    (∃ entries entries', entries.Perm counters ∧ entries'.Perm counters' ∧
        summary entries = summary entries') ↔
      (readCards past data).Perm (readCards past' data') := by
  have hcounts := (tally_spec intMax _).2 counters h
  have hcounts' := (tally_spec intMax _).2 counters' h'
  rw [← hcounts.perm_iff hcounts']
  constructor
  · rintro ⟨entries, entries', horder, horder', htext⟩
    obtain rfl := summary_injective htext
    exact horder.symm.trans horder'
  · intro hperm
    exact ⟨counters, counters, List.Perm.refl _, hperm, rfl⟩

/-- A text and the same cards the other way round, in small letters. -/
theorem summary_eq_iff_reversed :
    ∃ counters counters', counted (readCards 0 [0x53, 0x39, 0x48, 0x51]) = some counters ∧
      counted (readCards 0 [0x68, 0x71, 0x73, 0x39]) = some counters' ∧
      ∃ entries entries', entries.Perm counters ∧ entries'.Perm counters' ∧
        summary entries = summary entries' := by
  have h : counted (readCards 0 [0x53, 0x39, 0x48, 0x51]) =
      some [(⟨.spades, .nine⟩, 1), (⟨.hearts, .queen⟩, 1)] := by
    rw [readCards_eq]
    decide
  have h' : counted (readCards 0 [0x68, 0x71, 0x73, 0x39]) =
      some [(⟨.hearts, .queen⟩, 1), (⟨.spades, .nine⟩, 1)] := by
    rw [readCards_eq]
    decide
  refine ⟨_, _, h, h', (summary_eq_iff h h').mpr ?_⟩
  rw [readCards_eq, readCards_eq]
  decide

end CppMisc.Cards
