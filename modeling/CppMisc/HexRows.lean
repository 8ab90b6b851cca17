import CppMisc.HexDump

/-! The rows that `print_hex` writes: how many bytes make a row, which rows are written, and
what is left of them where the number of lines is limited. -/
namespace CppMisc.HexDump
open ListRows Numerals

lemma numPerLine_of_neg {o : PrintOptions} (h : o.columns.toInt < 0) : 1 ≤ numPerLine o := by
  have hsize := o.seperator_size
  have hlo := o.columns.le_toInt
  have hmod : (2 + o.seperator.length) % 2 ^ 64 = 2 + o.seperator.length :=
    Nat.mod_eq_of_lt (by omega)
  rw [numPerLine, hmod]
  refine (Nat.one_le_div_iff (by omega)).mpr ?_
  omega

lemma numPerLine_of_nonneg {o : PrintOptions} (h : 0 ≤ o.columns.toInt) :
    numPerLine o = o.columns.toInt.toNat / (2 + o.seperator.length) := by
  have hsize := o.seperator_size
  have hhi := o.columns.toInt_lt
  have hmod : (2 + o.seperator.length) % 2 ^ 64 = 2 + o.seperator.length :=
    Nat.mod_eq_of_lt (by omega)
  rw [numPerLine, hmod, Int.emod_eq_of_lt h (by omega)]

lemma numPerLine_pos_iff (o : PrintOptions) :
    1 ≤ numPerLine o ↔
      o.columns.toInt < 0 ∨ (2 + o.seperator.length : ℤ) ≤ o.columns.toInt := by
  rcases lt_or_ge o.columns.toInt 0 with h | h
  · exact iff_of_true (numPerLine_of_neg h) (.inl h)
  · rw [numPerLine_of_nonneg h, Nat.one_le_div_iff (by omega)]
    omega

lemma printLoop_isSome {o : PrintOptions} (hn : numPerLine o ≠ 0) (length : ℕ)
    (bytes : List UInt8) (position : ℕ) (lines : Int32) (stream : OStream) :
    (printLoop o length bytes position lines stream).isSome = true := by
  induction bytes generalizing position lines stream with
  | nil => rfl
  | cons byte rest ih =>
    rw [printLoop, if_neg hn]
    split_ifs
    · rfl
    · exact ih _ _ _
    · exact ih _ _ _

/-- When `print_hex` does not divide by zero: where a byte and a separator fit into the
columns, and also where the number of columns is negative. -/
theorem numPerLine_pos_iff_columns {bytes : List UInt8} (hbytes : bytes ≠ []) (o : PrintOptions) :
    (1 ≤ numPerLine o ↔
      o.columns.toInt < 0 ∨ (2 + o.seperator.length : ℤ) ≤ o.columns.toInt) ∧
      ((printHex bytes o).isSome = true ↔ 1 ≤ numPerLine o) := by
  refine ⟨numPerLine_pos_iff o, ?_⟩
  obtain ⟨byte, rest, rfl⟩ := List.exists_cons_of_ne_nil hbytes
  rw [printHex, if_neg (by simp), Option.isSome_map]
  constructor
  · intro h
    by_contra hzero
    rw [Nat.not_le, Nat.lt_one_iff] at hzero
    rw [printLoop, if_pos hzero] at h
    cases h
  · intro h
    exact printLoop_isSome (by omega) _ _ _ _ _

/-- The defaults, and one byte. -/
theorem numPerLine_pos_iff_columns_default :
    1 ≤ numPerLine {} ∧ (printHex [0] {}).isSome = true := by
  obtain ⟨hpos, hsome⟩ := numPerLine_pos_iff_columns (List.cons_ne_nil 0 []) {}
  have hcolumns := hpos.mpr (.inr (by decide))
  exact ⟨hcolumns, hsome.mpr hcolumns⟩

/-- Two columns are too few for a byte and a separator of one character. -/
theorem printHex_divides_by_zero :
    numPerLine { columns := 2 } = 0 ∧ printHex [0] { columns := 2 } = none :=
  ⟨rfl, rfl⟩

/-! The rows that the loop writes. -/

lemma printLoop_line {o : PrintOptions} (hn : numPerLine o ≠ 0) (length : ℕ)
    {row tail : List UInt8} (hrow : row ≠ [])
    (hend : row.length = numPerLine o ∨ row.length ≤ numPerLine o ∧ tail = []) {position : ℕ}
    (hpos : position % numPerLine o = 0) (lines : ℕ) (stream : OStream) :
    printLoop o length (row ++ tail) position (Int32.ofNat lines) stream =
      let printed := printing stream.uppercase
        (stream.text ++ rowLine stream.uppercase o.seperator row)
      if Int32.ofNat (lines + 1) = o.lines then some (truncated o length printed)
      else printLoop o length tail (position + row.length) (Int32.ofNat (lines + 1)) printed := by
  have hend' : position % numPerLine o + row.length = numPerLine o ∨
      position % numPerLine o + row.length < numPerLine o ∧ tail = [] := by
    rw [hpos, Nat.zero_add]
    rcases hend with hfull | ⟨hle, htail⟩
    · exact .inl hfull
    · exact hle.eq_or_lt.imp id fun hlt => ⟨hlt, htail⟩
  have hsucc : Int32.ofNat (lines + 1) = Int32.ofNat lines + 1 := Int32.ofNat_add lines 1
  rw [printLoop_row hn length hrow hend', hsucc]

/-- A full line that is not the last one wanted. -/
lemma printLoop_next {o : PrintOptions} (hn : numPerLine o ≠ 0) (length : ℕ)
    {row tail : List UInt8} (hrow : row.length = numPerLine o) {position : ℕ}
    (hpos : position % numPerLine o = 0) {lines : ℕ} (hlines : Int32.ofNat (lines + 1) ≠ o.lines)
    (stream : OStream) :
    printLoop o length (row ++ tail) position (Int32.ofNat lines) stream =
        printLoop o length tail (position + row.length) (Int32.ofNat (lines + 1))
          (printing stream.uppercase
            (stream.text ++ rowLine stream.uppercase o.seperator row)) ∧
      (position + row.length) % numPerLine o = 0 := by
  have hne : row ≠ [] := List.ne_nil_of_length_pos (hrow ▸ Nat.pos_of_ne_zero hn)
  refine ⟨?_, by rw [hrow, Nat.add_mod_right, hpos]⟩
  rw [printLoop_line hn length hne (.inl hrow) hpos]
  simp only [if_neg hlines]

lemma lines_ne_succ {lines k : ℕ} {wanted : Int32}
    (h : ∀ j, 1 ≤ j → j ≤ k + 1 → Int32.ofNat (lines + j) ≠ wanted) :
    ∀ j, 1 ≤ j → j ≤ k → Int32.ofNat (lines + 1 + j) ≠ wanted := by
  intro j hj hle
  rw [Nat.add_assoc, Nat.add_comm 1 j]
  exact h (j + 1) (Nat.le_add_left 1 j) (Nat.succ_le_succ hle)

lemma printLoop_all {o : PrintOptions} (hn : numPerLine o ≠ 0) (length : ℕ) {bytes : List UInt8}
    {rows : List (List UInt8)} (h : Rows (numPerLine o) bytes rows) {lines position : ℕ}
    (hlines : ∀ k, 1 ≤ k → k ≤ rows.length → Int32.ofNat (lines + k) ≠ o.lines)
    (hpos : position % numPerLine o = 0) (stream : OStream) :
    (printLoop o length bytes position (Int32.ofNat lines) stream).map OStream.text =
      some (stream.text ++ rows.flatMap (rowLine stream.uppercase o.seperator)) := by
  induction h generalizing lines position stream with
  | nil => simp [printLoop]
  | @last row hne hle =>
    have hline := printLoop_line hn length hne (.inr ⟨hle, rfl⟩) hpos lines stream
    rw [List.append_nil] at hline
    rw [hline]
    simp only [if_neg (hlines 1 le_rfl le_rfl), printLoop]
    simp [printing]
  | @cons row xs rows hrow hne hrest ih =>
    obtain ⟨hnext, hpos'⟩ := printLoop_next hn length hrow hpos
      (hlines 1 le_rfl (Nat.le_add_left 1 _)) stream
    rw [hnext, ih (lines_ne_succ hlines) hpos']
    simp [printing]

lemma printLoop_stop {o : PrintOptions} (hn : numPerLine o ≠ 0) (length : ℕ) {bytes : List UInt8}
    {rows : List (List UInt8)} (h : Rows (numPerLine o) bytes rows) {lines position k : ℕ}
    (hk : k < rows.length) (hstop : Int32.ofNat (lines + (k + 1)) = o.lines)
    (hlines : ∀ j, 1 ≤ j → j ≤ k → Int32.ofNat (lines + j) ≠ o.lines)
    (hpos : position % numPerLine o = 0) (stream : OStream) :
    printLoop o length bytes position (Int32.ofNat lines) stream =
      some (truncated o length (printing stream.uppercase
        (stream.text ++ (rows.take (k + 1)).flatMap (rowLine stream.uppercase o.seperator)))) := by
  induction h generalizing lines position k stream with
  | nil => exact absurd hk (Nat.not_lt_zero k)
  | @last row hne hle =>
    obtain rfl : k = 0 := Nat.lt_one_iff.mp hk
    have hline := printLoop_line hn length hne (.inr ⟨hle, rfl⟩) hpos lines stream
    rw [List.append_nil] at hline
    rw [hline]
    simp only [if_pos hstop]
    simp
  | @cons row xs rows hrow hne hrest ih =>
    rcases k with _ | k
    · have hne' : row ≠ [] := List.ne_nil_of_length_pos (hrow ▸ Nat.pos_of_ne_zero hn)
      rw [printLoop_line hn length hne' (.inl hrow) hpos]
      simp only [if_pos hstop]
      simp
    · have hstop' : Int32.ofNat (lines + 1 + (k + 1)) = o.lines := by
        rw [Nat.add_assoc, Nat.add_comm 1 (k + 1)]
        exact hstop
      obtain ⟨hnext, hpos'⟩ := printLoop_next hn length hrow hpos
        (hlines 1 le_rfl (Nat.le_add_left 1 k)) stream
      rw [hnext, ih (Nat.lt_of_succ_lt_succ hk) hstop' (lines_ne_succ hlines) hpos']
      simp [printing]

lemma ofNat_eq_lines_iff {k : ℕ} (hk : k < 2 ^ 31) (lines : Int32) :
    Int32.ofNat k = lines ↔ (k : ℤ) = lines.toInt := by
  rw [← Int32.toInt_inj, Int32.toInt_ofNat_of_lt hk]

lemma rowsOf_length (n : ℕ) (bytes : List UInt8) :
    (rowsOf n bytes).length = bytes.length ⌈/⌉ n := by
  rw [rowsOf, List.length_map, List.length_range]

/-- The rows of the dump of all bytes. -/
def lines (o : PrintOptions) (bytes : List UInt8) : List (List Char) :=
  (rowsOf (numPerLine o) bytes).map (rowLine o.upperCase o.seperator)

lemma lines_take (o : PrintOptions) (bytes : List UInt8) (k : ℕ) :
    ((lines o bytes).take k).flatten =
      ((rowsOf (numPerLine o) bytes).take k).flatMap (rowLine o.upperCase o.seperator) := by
  rw [lines, ← List.map_take, List.flatMap_def]

lemma lines_flatten (o : PrintOptions) (bytes : List UInt8) :
    (lines o bytes).flatten =
      (rowsOf (numPerLine o) bytes).flatMap (rowLine o.upperCase o.seperator) := by
  rw [lines, List.flatMap_def]

lemma printHex_cons {bytes : List UInt8} (hbytes : bytes ≠ []) (o : PrintOptions) :
    printHex bytes o =
      (printLoop o bytes.length bytes 0 (Int32.ofNat 0)
        { OStream.empty with uppercase := o.upperCase }).map OStream.text := by
  have hlen := List.length_pos_of_ne_nil hbytes
  rw [printHex, if_neg (by omega)]
  cases o.upperCase <;> rfl

/-- The dump that stops behind one of its lines. -/
lemma printHex_stop {o : PrintOptions} (hn : 1 ≤ numPerLine o) {bytes : List UInt8}
    (hbound : bytes.length ⌈/⌉ numPerLine o < 2 ^ 31) {k : ℕ}
    (hk : k < bytes.length ⌈/⌉ numPerLine o) (hstop : o.lines.toInt = (k + 1 : ℕ)) :
    printHex bytes o =
      some (truncated o bytes.length
        (printing o.upperCase ((lines o bytes).take (k + 1)).flatten)).text := by
  have hbytes : bytes ≠ [] := by
    rintro rfl
    simp at hk
  have hrows := rows_rowsOf hn bytes
  rw [← rowsOf_length] at hk
  have hlines : ∀ j, 1 ≤ j → j ≤ k → Int32.ofNat (0 + j) ≠ o.lines := by
    intro j hj hle
    rw [Nat.zero_add, ne_eq, ofNat_eq_lines_iff (by rw [rowsOf_length] at hk; omega)]
    omega
  have hlast : Int32.ofNat (0 + (k + 1)) = o.lines := by
    rw [Nat.zero_add, ofNat_eq_lines_iff (by rw [rowsOf_length] at hk; omega)]
    exact hstop.symm
  rw [printHex_cons hbytes,
    printLoop_stop (by omega) bytes.length hrows hk hlast hlines (Nat.zero_mod _), lines_take]
  rfl

/-- The dump that is not cut short. -/
lemma printHex_all {o : PrintOptions} (hn : 1 ≤ numPerLine o) {bytes : List UInt8}
    (hbound : bytes.length ⌈/⌉ numPerLine o < 2 ^ 31)
    (hlines : o.lines.toInt ≤ 0 ∨
      ((bytes.length ⌈/⌉ numPerLine o : ℕ) : ℤ) ≤ o.lines.toInt) :
    printHex bytes o = some (lines o bytes).flatten := by
  rcases eq_or_ne bytes [] with rfl | hbytes
  · simp [printHex, lines, rowsOf]
  by_cases hlast : o.lines.toInt = (bytes.length ⌈/⌉ numPerLine o : ℕ)
  · -- the limit is reached with the last line
    have hlen := List.length_pos_of_ne_nil hbytes
    have hpos : 0 < bytes.length ⌈/⌉ numPerLine o := by
      rw [Nat.ceilDiv_eq_add_pred_div]
      exact Nat.div_pos (by omega) hn
    obtain ⟨k, hk⟩ : ∃ k, bytes.length ⌈/⌉ numPerLine o = k + 1 :=
      ⟨bytes.length ⌈/⌉ numPerLine o - 1, by omega⟩
    have hrem : Int32.ofNat (bytes.length ⌈/⌉ numPerLine o) = o.lines :=
      (ofNat_eq_lines_iff hbound _).mpr hlast.symm
    have htake : (lines o bytes).take (k + 1) = lines o bytes := by
      apply List.take_of_length_le
      rw [lines, List.length_map, rowsOf_length, hk]
    rw [printHex_stop hn hbound (by omega) (hk ▸ hlast), htake, truncated, hrem]
    simp [printing]
  · have hrows := rows_rowsOf hn bytes
    have hnot : ∀ k, 1 ≤ k → k ≤ (rowsOf (numPerLine o) bytes).length →
        Int32.ofNat (0 + k) ≠ o.lines := by
      intro k hk hle
      rw [rowsOf_length] at hle
      rw [Nat.zero_add, ne_eq, ofNat_eq_lines_iff (by omega)]
      omega
    rw [printHex_cons hbytes, printLoop_all (by omega) bytes.length hrows hnot (Nat.zero_mod _),
      lines_flatten]
    rfl

/-- What stands behind the lines that are shown. -/
lemma truncated_text {o : PrintOptions} {length k : ℕ} (hstop : o.lines.toInt = k)
    (hk : k < length ⌈/⌉ numPerLine o) (hbound : length ⌈/⌉ numPerLine o < 2 ^ 31)
    (upper : Bool) (text : List Char) :
    (truncated o length (printing upper text)).text =
      text ++ (['.', '.', '.', ' '] ++ numeral upper 16 (length ⌈/⌉ numPerLine o - k) ++
        [' ', 'm', 'o', 'r', 'e', '\n']) := by
  have hlines : o.lines = Int32.ofNat k :=
    ((ofNat_eq_lines_iff (by omega) _).mpr hstop.symm).symm
  have hrem : Int32.ofNat (length ⌈/⌉ numPerLine o) - o.lines =
      Int32.ofNat (length ⌈/⌉ numPerLine o - k) := by
    rw [hlines, Int32.ofNat_sub _ _ hk.le]
  have hne : Int32.ofNat (length ⌈/⌉ numPerLine o - k) ≠ 0 := by
    rw [show (0 : Int32) = Int32.ofNat 0 from rfl, ne_eq, ofNat_eq_lines_iff (by omega),
      Int32.toInt_ofNat_of_lt (by norm_num)]
    omega
  rw [truncated]
  simp only [hrem, if_neg hne]
  rw [put_printing, putInt_printing _ _ (by omega), put_printing, endl_printing]
  simp [printing]

lemma printHex_shown_iff {o : PrintOptions} (hn : 1 ≤ numPerLine o) {k : ℕ} (hk : 1 ≤ k)
    (hlines : o.lines.toInt = k) {bytes : List UInt8} (hlt : k < bytes.length ⌈/⌉ numPerLine o)
    (hbound : bytes.length ⌈/⌉ numPerLine o < 2 ^ 31) (shown : List Char) :
    printHex bytes o = some (((lines o bytes).take k).flatten ++
        (['.', '.', '.', ' '] ++ shown ++ [' ', 'm', 'o', 'r', 'e', '\n'])) ↔
      shown = numeral o.upperCase 16 (bytes.length ⌈/⌉ numPerLine o - k) := by
  obtain ⟨j, rfl⟩ : ∃ j, k = j + 1 := ⟨k - 1, by omega⟩
  rw [printHex_stop hn hbound (by omega) hlines, truncated_text hlines hlt hbound,
    Option.some.injEq]
  constructor
  · intro h
    exact (List.append_cancel_left (List.append_cancel_right (List.append_cancel_left h))).symm
  · rintro rfl
    rfl

/-- The output is the first `k` lines of the dump that is not cut short, and one more line,
with the number of those that were left out. -/
def TruncatesHonestly (o : PrintOptions) (bytes : List UInt8) (k : ℕ) : Prop :=
  printHex bytes { o with lines := 0 } = some (lines o bytes).flatten ∧
    ∃ shown, printHex bytes o = some (((lines o bytes).take k).flatten ++
        (['.', '.', '.', ' '] ++ shown ++ [' ', 'm', 'o', 'r', 'e', '\n'])) ∧
      readNumeral 10 shown = some ((lines o bytes).length - k)

/-- When the number of the lines left out is right: as long as it has a single digit. The
stream still prints in hexadecimal when it comes to that number. -/
theorem truncatesHonestly_iff {o : PrintOptions}
    (hcolumns : (2 + o.seperator.length : ℤ) ≤ o.columns.toInt) {k : ℕ} (hk : 1 ≤ k)
    (hlines : o.lines.toInt = k) {bytes : List UInt8} (hlt : k < bytes.length ⌈/⌉ numPerLine o)
    (hbound : bytes.length ⌈/⌉ numPerLine o < 2 ^ 31) :
    TruncatesHonestly o bytes k ↔ bytes.length ⌈/⌉ numPerLine o - k < 10 := by
  have hn : 1 ≤ numPerLine o := (numPerLine_pos_iff o).mpr (.inr hcolumns)
  have hfull : printHex bytes { o with lines := 0 } = some (lines o bytes).flatten :=
    printHex_all (o := { o with lines := 0 }) hn hbound (.inl le_rfl)
  have hlength : (lines o bytes).length = bytes.length ⌈/⌉ numPerLine o := by
    rw [lines, List.length_map, rowsOf_length]
  rw [TruncatesHonestly, hlength, ← readNumeral_decimal_iff o.upperCase]
  constructor
  · rintro ⟨-, shown, hshown, hread⟩
    rwa [(printHex_shown_iff hn hk hlines hlt hbound shown).mp hshown] at hread
  · intro hread
    exact ⟨hfull, _, (printHex_shown_iff hn hk hlines hlt hbound _).mpr rfl, hread⟩

/-- Three lines of one byte each, of which two are left out. -/
theorem truncatesHonestly_iff_two :
    TruncatesHonestly { columns := 2, seperator := [] } [0, 1, 2] 1 :=
  (truncatesHonestly_iff (by decide) le_rfl rfl (by decide) (by decide)).mpr (by decide)

/-- Eleven lines, of which ten are left out: their number is printed as `A`. -/
theorem not_truncatesHonestly :
    printHex (List.replicate 11 0) { columns := 2, seperator := [] } =
        some ['0', '0', '\n', '.', '.', '.', ' ', 'A', ' ', 'm', 'o', 'r', 'e', '\n'] ∧
      ¬ TruncatesHonestly { columns := 2, seperator := [] } (List.replicate 11 0) 1 := by
  refine ⟨by decide, ?_⟩
  rintro ⟨-, shown, hshown, hread⟩
  have hA := (printHex_shown_iff (by decide) le_rfl rfl (by decide) (by decide) shown).mp hshown
  rw [hA] at hread
  exact absurd hread (by decide)

end CppMisc.HexDump
