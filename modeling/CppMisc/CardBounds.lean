import CppMisc.CardReader

/-! Where `read_cards` looks. The loop that skips white space tests the byte before it tests
for the end, so white space at the end of the span takes it one byte too far. -/
namespace CppMisc.Cards

/-- The indices in the span of all dereferences of `start`, in order. -/
def dereferences (past : UInt8) (data : List UInt8) : List ℕ :=
  (readLoop past ⟨data, []⟩ []).2.reads.map fun left => data.length - left

def EndsBlank (bytes : List UInt8) : Prop := ∃ c ∈ bytes.getLast?, space c = true

instance (bytes : List UInt8) : Decidable (EndsBlank bytes) :=
  inferInstanceAs (Decidable (∃ c ∈ bytes.getLast?, space c = true))

lemma endsBlank_cons {a : UInt8} {rest : List UInt8} (h : rest ≠ []) :
    EndsBlank (a :: rest) ↔ EndsBlank rest := by
  obtain ⟨b, rest, rfl⟩ := List.exists_cons_of_ne_nil h
  rw [EndsBlank, EndsBlank, List.getLast?_cons_cons]

lemma endsBlank_single (a : UInt8) : EndsBlank [a] ↔ space a = true := by
  simp [EndsBlank]

lemma endsBlank_cons_of_not_space {a : UInt8} (h : space a = false) (rest : List UInt8) :
    EndsBlank (a :: rest) ↔ EndsBlank rest := by
  by_cases hrest : rest = []
  · subst hrest
    rw [endsBlank_single, h]
    simp [EndsBlank]
  · exact endsBlank_cons hrest

/-- The loop drops the leading white space, and it looks at the end if nothing else is left. -/
lemma skipSpace_spec (past : UInt8) (s : Scan) :
    (skipSpace past s).start = s.start.dropWhile space ∧
      (0 ∈ (skipSpace past s).reads ↔ 0 ∈ s.reads ∨ s.start.dropWhile space = []) := by
  fun_induction skipSpace past s with
  | case1 s r h ih =>
    obtain ⟨start, reads⟩ := s
    obtain ⟨hspace, hend⟩ := Bool.and_eq_true_iff.mp h
    rw [ih.1, ih.2]
    cases start with
    | nil => simp [r, Scan.deref, Scan.atEnd] at hend
    | cons c rest =>
      have hdrop : (c :: rest).dropWhile space = rest.dropWhile space :=
        List.dropWhile_cons_of_pos hspace
      simp [r, hdrop, Scan.deref, Scan.advance]
  | case2 s r h =>
    obtain ⟨start, reads⟩ := s
    cases start with
    | nil => simp [r, Scan.deref]
    | cons c rest =>
      have hspace : ¬ space c = true := by simpa [r, Scan.deref, Scan.atEnd] using h
      rw [List.dropWhile_cons_of_neg hspace]
      simp [r, Scan.deref]

lemma dropWhile_endsBlank {bytes : List UInt8} (h : bytes ≠ []) :
    bytes.dropWhile space = [] ∨ EndsBlank (bytes.dropWhile space) ↔ EndsBlank bytes := by
  induction bytes with
  | nil => exact absurd rfl h
  | cons c rest ih =>
    by_cases hspace : space c = true
    · rw [List.dropWhile_cons_of_pos hspace]
      by_cases hrest : rest = []
      · simp [hrest, endsBlank_single, hspace]
      · rw [endsBlank_cons hrest, ih hrest]
    · rw [List.dropWhile_cons_of_neg hspace]
      simp

lemma toFace_space {c : UInt8} (h : space c = true) : toFace c = .invalid := by
  simp only [space, Bool.or_eq_true, beq_iff_eq, or_assoc] at h
  rcases h with rfl | rfl | rfl | rfl | rfl <;> rfl

/-- `getCard` dereferences nothing at the end, and it takes no white space. -/
lemma getCard_reads (past : UInt8) (s : Scan) (h : ∀ c ∈ s.start.head?, space c = false) :
    (0 ∈ (getCard past s).2.reads ↔ 0 ∈ s.reads) ∧
      (EndsBlank (getCard past s).2.start ↔ EndsBlank s.start) := by
  obtain ⟨start, reads⟩ := s
  match start with
  | [] => exact ⟨Iff.rfl, Iff.rfl⟩
  | [a] =>
    have ha : space a = false := h a rfl
    simp [getCard, Scan.atEnd, Scan.deref, Scan.advance, endsBlank_cons_of_not_space ha]
  | a :: b :: rest =>
    have ha : space a = false := h a rfl
    rw [endsBlank_cons_of_not_space ha]
    by_cases hsuit : toSuit a = .invalid
    · simp [getCard, Scan.atEnd, Scan.deref, Scan.advance, hsuit]
    · by_cases hface : toFace b = .invalid
      · simp [getCard, Scan.atEnd, Scan.deref, Scan.advance, hsuit, hface]
      · have hb : space b = false := by
          by_contra hspace
          exact hface (toFace_space (Bool.eq_true_of_not_eq_false hspace))
        simp [getCard, Scan.atEnd, Scan.deref, Scan.advance, hsuit, hface,
          endsBlank_cons_of_not_space hb]

lemma readLoop_reads (past : UInt8) (s : Scan) (result : List Card) :
    0 ∈ (readLoop past s result).2.reads ↔ 0 ∈ s.reads ∨ EndsBlank s.start := by
  fun_induction readLoop past s result with
  | case1 s result h =>
    have hnil : s.start = [] := by simpa [Scan.atEnd] using h
    simp [hnil, EndsBlank]
  | case2 s result h r ih =>
    have hne : s.start ≠ [] := by simpa [Scan.atEnd] using h
    obtain ⟨hstart, hskip⟩ := skipSpace_spec past s
    have hhead : ∀ c ∈ (skipSpace past s).start.head?, space c = false := by
      intro c hc
      have hnot := List.head?_dropWhile_not space s.start
      rw [← hstart, Option.mem_def.mp hc] at hnot
      exact hnot
    obtain ⟨hreads, hblank⟩ := getCard_reads past (skipSpace past s) hhead
    simp only [dite_eq_ite] at ih
    rw [ih, hreads, hblank, hskip, hstart, or_assoc, dropWhile_endsBlank hne]

/-- When the scan stays in its span. -/
theorem readCards_inBounds_iff (past : UInt8) (data : List UInt8) :
    (∀ i ∈ dereferences past data, i < data.length) ↔ ¬ EndsBlank data := by
  have hreads := readLoop_reads past ⟨data, []⟩ []
  simp only [List.not_mem_nil, false_or] at hreads
  rw [← hreads, dereferences, List.forall_mem_map]
  by_cases hnil : data = []
  · subst hnil
    simp [readLoop, Scan.atEnd]
  · have hpos := List.length_pos_iff.mpr hnil
    constructor
    · intro hlt hzero
      exact absurd (hlt 0 hzero) (by omega)
    · intro hzero left hleft
      have hne : left ≠ 0 := fun h => hzero (h ▸ hleft)
      omega

/-- A single blank is looked at, and then the byte behind it. -/
theorem readCards_blank : ¬ ∀ i ∈ dereferences 0 [0x20], i < [(0x20 : UInt8)].length := by
  intro h
  have hzero : 0 ∈ (readLoop 0 ⟨[0x20], []⟩ []).2.reads :=
    (readLoop_reads 0 ⟨[0x20], []⟩ []).mpr (.inr (by decide))
  exact lt_irrefl 1 (h 1 (List.mem_map.mpr ⟨0, hzero, rfl⟩))

end CppMisc.Cards
