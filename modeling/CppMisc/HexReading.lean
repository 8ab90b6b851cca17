import CppMisc.HexRows

/-! Reading a dump back. The position of each byte follows from the number of bytes in a row
and the length of the separator alone, whatever characters the separator has. -/
namespace CppMisc.HexDump
open ListRows Numerals

/-- Where the digits of the `i`-th byte stand, with `n` bytes in a row. -/
def digitsAt (n sepLen i : ℕ) : ℕ :=
  i / n * (n * (2 + sepLen) - sepLen + 1) + i % n * (2 + sepLen)

/-- The numbers at all positions of digits that the text reaches. -/
def readHex (o : PrintOptions) (text : List Char) : List (Option ℕ) :=
  let start := digitsAt (numPerLine o) o.seperator.length
  ((List.range text.length).filter fun i => start i + 2 ≤ text.length).map fun i =>
    readNumeral 16 ((text.drop (start i)).take 2)

lemma rowText_cons (upper : Bool) (seperator : List Char) (byte : UInt8) {row : List UInt8}
    (hrow : row ≠ []) :
    rowText upper seperator (byte :: row) =
      byteText upper byte ++ (seperator ++ rowText upper seperator row) := by
  rw [rowText, List.map_cons, List.intercalate_cons_of_ne_nil (by simpa using hrow),
    List.append_assoc, rowText]

lemma rowText_length (upper : Bool) (seperator : List Char) {row : List UInt8} (hrow : row ≠ []) :
    (rowText upper seperator row).length + seperator.length =
      row.length * (2 + seperator.length) := by
  induction row with
  | nil => exact absurd rfl hrow
  | cons byte row ih =>
    rcases eq_or_ne row [] with rfl | hne
    · simp [rowText, byteText]
    · rw [rowText_cons upper seperator byte hne]
      have hrest := ih hne
      rw [List.length_cons, Nat.succ_mul, ← hrest]
      simp only [List.length_append, byteText, List.length_cons, List.length_nil]
      omega

lemma rowText_group (upper : Bool) (seperator : List Char) {row : List UInt8} (rest : List Char)
    {i : ℕ} (hi : i < row.length) :
    ((rowText upper seperator row ++ rest).drop (i * (2 + seperator.length))).take 2 =
      byteText upper row[i] := by
  induction row generalizing i with
  | nil => exact absurd hi (Nat.not_lt_zero i)
  | cons byte row ih =>
    rcases eq_or_ne row [] with rfl | hne
    · obtain rfl : i = 0 := Nat.lt_one_iff.mp hi
      simp [rowText, byteText]
    · rw [rowText_cons upper seperator byte hne]
      cases i with
      | zero => simp [byteText]
      | succ i =>
        have hlen : (byteText upper byte ++ seperator).length = 2 + seperator.length :=
          List.length_append
        have hsplit : byteText upper byte ++ (seperator ++ rowText upper seperator row) ++ rest =
            (byteText upper byte ++ seperator) ++ (rowText upper seperator row ++ rest) := by
          simp
        rw [hsplit, Nat.succ_mul, Nat.add_comm, ← List.drop_drop, List.drop_left' hlen,
          ih (Nat.lt_of_succ_lt_succ hi)]
        rfl

lemma rowLine_length (upper : Bool) (seperator : List Char) {row : List UInt8} (hrow : row ≠ []) :
    (rowLine upper seperator row).length =
      row.length * (2 + seperator.length) - seperator.length + 1 := by
  have htext := rowText_length upper seperator hrow
  rw [rowLine, List.length_append, List.length_singleton]
  omega

lemma digitsAt_lt {n sepLen i : ℕ} (h : i < n) : digitsAt n sepLen i = i * (2 + sepLen) := by
  rw [digitsAt, Nat.div_eq_of_lt h, Nat.mod_eq_of_lt h, Nat.zero_mul, Nat.zero_add]

lemma digitsAt_add {n : ℕ} (hn : 0 < n) (sepLen i : ℕ) :
    digitsAt n sepLen (n + i) = n * (2 + sepLen) - sepLen + 1 + digitsAt n sepLen i := by
  rw [digitsAt, Nat.add_div_left i hn, Nat.add_mod_left, Nat.succ_mul, digitsAt]
  omega

/-- The digits of a byte in the first of the rows. -/
lemma line_digits (upper : Bool) (seperator : List Char) {row : List UInt8} (rest : List Char)
    {i : ℕ} (hi : i < row.length) :
    i * (2 + seperator.length) + 2 ≤ (rowLine upper seperator row ++ rest).length ∧
      ((rowLine upper seperator row ++ rest).drop (i * (2 + seperator.length))).take 2 =
        byteText upper row[i] := by
  have hrow : row ≠ [] := List.ne_nil_of_length_pos (Nat.zero_lt_of_lt hi)
  have htext := rowText_length upper seperator hrow
  have hmul := Nat.mul_le_mul_right (2 + seperator.length) (Nat.succ_le_of_lt hi)
  rw [Nat.succ_mul] at hmul
  refine ⟨?_, ?_⟩
  · rw [List.length_append, rowLine, List.length_append]
    omega
  · rw [rowLine, List.append_assoc]
    exact rowText_group upper seperator _ hi

lemma rows_digits {n : ℕ} (hn : 0 < n) (upper : Bool) (seperator : List Char)
    {bytes : List UInt8} {rows : List (List UInt8)} (h : Rows n bytes rows) :
    (∀ i (hi : i < bytes.length),
      digitsAt n seperator.length i + 2 ≤ (rows.flatMap (rowLine upper seperator)).length ∧
        ((rows.flatMap (rowLine upper seperator)).drop (digitsAt n seperator.length i)).take 2 =
          byteText upper bytes[i]) ∧
      ∀ i, bytes.length ≤ i →
        (rows.flatMap (rowLine upper seperator)).length < digitsAt n seperator.length i + 2 := by
  induction h with
  | nil => exact ⟨fun i hi => absurd hi (Nat.not_lt_zero i), fun i _ => Nat.succ_pos _⟩
  | @last row hne hle =>
    rw [List.flatMap_singleton]
    refine ⟨?_, ?_⟩
    · intro i hi
      have hdigits := line_digits upper seperator [] hi
      rw [digitsAt_lt (hi.trans_le hle)]
      rwa [List.append_nil] at hdigits
    · intro i hi
      have hline := rowLine_length upper seperator hne
      rcases Nat.lt_or_ge i n with hlt | hge
      · have hmul := Nat.mul_le_mul_right (2 + seperator.length) hi
        rw [digitsAt_lt hlt]
        omega
      · obtain ⟨j, rfl⟩ := Nat.exists_eq_add_of_le hge
        have hmul := Nat.mul_le_mul_right (2 + seperator.length) hle
        rw [digitsAt_add hn]
        omega
  | @cons row xs rows hrow hne hrest ih =>
    have hne' : row ≠ [] := List.ne_nil_of_length_pos (hrow ▸ hn)
    have hline := rowLine_length upper seperator hne'
    rw [hrow] at hline
    rw [List.flatMap_cons]
    refine ⟨?_, ?_⟩
    · intro i hi
      rcases Nat.lt_or_ge i n with hlt | hge
      · have hdigits := line_digits upper seperator (rows.flatMap (rowLine upper seperator))
          (hlt.trans_eq hrow.symm)
        rw [digitsAt_lt hlt, List.getElem_append_left (hlt.trans_eq hrow.symm)]
        exact hdigits
      · -- the byte is in a later row
        obtain ⟨j, rfl⟩ := Nat.exists_eq_add_of_le hge
        have hj : j < xs.length := by
          rw [List.length_append] at hi
          omega
        have hget : (row ++ xs)[n + j] = xs[j] := by
          rw [List.getElem_append_right (by omega)]
          congr 1
          omega
        obtain ⟨hle, hdigits⟩ := ih.1 j hj
        rw [digitsAt_add hn, hget, List.length_append, ← List.drop_drop,
          List.drop_left' hline]
        exact ⟨by omega, hdigits⟩
    · intro i hi
      rw [List.length_append] at hi ⊢
      obtain ⟨j, rfl⟩ := Nat.exists_eq_add_of_le (by omega : n ≤ i)
      have hrest' := ih.2 j (by omega)
      rw [digitsAt_add hn]
      omega

lemma le_digitsAt {n : ℕ} (hn : 0 < n) (sepLen i : ℕ) : i ≤ digitsAt n sepLen i := by
  have hsep := Nat.mul_le_mul_right sepLen hn
  have hline : n ≤ n * (2 + sepLen) - sepLen + 1 := by
    rw [Nat.mul_add]
    omega
  have hquot := Nat.mul_le_mul_left (i / n) hline
  have hrest := Nat.le_mul_of_pos_right (i % n) (by omega : 0 < 2 + sepLen)
  have hdiv := Nat.div_add_mod' i n
  rw [digitsAt]
  omega

lemma filter_lt_range {m l : ℕ} (h : m ≤ l) : (List.range l).filter (· < m) = List.range m := by
  obtain ⟨k, rfl⟩ := Nat.exists_eq_add_of_le h
  have hfront : (List.range m).filter (· < m) = List.range m :=
    List.filter_eq_self.mpr fun i hi => decide_eq_true (List.mem_range.mp hi)
  have hback : ((List.range k).map (m + ·)).filter (· < m) = [] := by
    rw [List.filter_eq_nil_iff]
    intro i hi
    obtain ⟨j, -, rfl⟩ := List.mem_map.mp hi
    simp
  rw [List.range_add, List.filter_append, hfront, hback, List.append_nil]

lemma readHex_lines {o : PrintOptions} (hn : 1 ≤ numPerLine o) (bytes : List UInt8) :
    readHex o (lines o bytes).flatten = bytes.map fun byte => some byte.toNat := by
  obtain ⟨hinside, hbehind⟩ :=
    rows_digits hn o.upperCase o.seperator (rows_rowsOf hn bytes)
  rw [← lines_flatten] at hinside hbehind
  have hreach : ∀ i ∈ List.range (lines o bytes).flatten.length,
      decide (digitsAt (numPerLine o) o.seperator.length i + 2 ≤ (lines o bytes).flatten.length) =
        decide (i < bytes.length) := by
    intro i _
    rw [decide_eq_decide]
    constructor
    · intro hle
      by_contra hge
      have hgt := hbehind i (Nat.le_of_not_lt hge)
      omega
    · exact fun hi => (hinside i hi).1
  have hlen : bytes.length ≤ (lines o bytes).flatten.length := by
    by_contra hgt
    have hle := (hinside (lines o bytes).flatten.length (Nat.lt_of_not_le hgt)).1
    have hpos := le_digitsAt hn o.seperator.length (lines o bytes).flatten.length
    omega
  rw [readHex, List.filter_congr hreach, filter_lt_range hlen]
  apply List.ext_getElem
  · simp
  · intro i hi₁ hi₂
    have hi : i < bytes.length := by simpa using hi₂
    simp only [List.getElem_map, List.getElem_range, (hinside i hi).2]
    exact readNumeral_byte o.upperCase bytes[i].toNat_lt

/-- The rows are all shown, and they can be counted. -/
def Untruncated (o : PrintOptions) (bytes : List UInt8) : Prop :=
  bytes.length ⌈/⌉ numPerLine o < 2 ^ 31 ∧
    (o.lines.toInt ≤ 0 ∨ ((bytes.length ⌈/⌉ numPerLine o : ℕ) : ℤ) ≤ o.lines.toInt)

/-- What a dump of all bytes looks like: full rows and a last one, within the columns. The
digits at their positions give the bytes back, so no other bytes have the same dump. -/
theorem printHex_readable {o : PrintOptions}
    (hcolumns : (2 + o.seperator.length : ℤ) ≤ o.columns.toInt) {bytes : List UInt8}
    (hbytes : Untruncated o bytes) :
    ∃ (n : ℕ) (rows : List (List UInt8)) (text : List Char),
      n = o.columns.toInt.toNat / (2 + o.seperator.length) ∧
      printHex bytes o = some text ∧
      text = (rows.map fun row => rowText o.upperCase o.seperator row ++ ['\n']).flatten ∧
      rows.flatten = bytes ∧ rows.length = bytes.length ⌈/⌉ n ∧
      (∀ row ∈ rows.dropLast, row.length = n) ∧
      (∀ row ∈ rows, (1 ≤ row.length ∧ row.length ≤ n) ∧
        ((rowText o.upperCase o.seperator row).length : ℤ) ≤
          o.columns.toInt - o.seperator.length) ∧
      readHex o text = bytes.map (fun byte => some byte.toNat) ∧
      ∀ bytes', Untruncated o bytes' → printHex bytes' o = printHex bytes o → bytes' = bytes := by
  have hn : 1 ≤ numPerLine o := (numPerLine_pos_iff o).mpr (.inr hcolumns)
  have hwidth := numPerLine_of_nonneg (o := o) (by omega)
  have hrows := rows_rowsOf hn bytes
  have htext := printHex_all hn hbytes.1 hbytes.2
  refine ⟨numPerLine o, rowsOf (numPerLine o) bytes, _, hwidth, htext, rfl, hrows.flatten,
    rowsOf_length _ _, hrows.full, ?_, readHex_lines hn bytes, ?_⟩
  · intro row hrow
    have hle := hrows.length_le row hrow
    have hpos := hrows.pos hn row hrow
    have hlen := rowText_length o.upperCase o.seperator (List.ne_nil_of_length_pos hpos)
    have hmul := Nat.mul_le_mul_right (2 + o.seperator.length) hle
    have hdiv := Nat.div_mul_le_self o.columns.toInt.toNat (2 + o.seperator.length)
    rw [← hwidth] at hdiv
    exact ⟨⟨hpos, hle⟩, by omega⟩
  · intro bytes' hbytes' hsame
    rw [htext, printHex_all hn hbytes'.1 hbytes'.2, Option.some.injEq] at hsame
    have hread := congrArg (readHex o) hsame
    rw [readHex_lines hn, readHex_lines hn] at hread
    refine List.map_injective_iff.mpr ?_ hread
    intro a b hab
    exact UInt8.toNat_inj.mp (Option.some.inj hab)

/-- Three bytes in rows of two, with a separator that is a hexadecimal digit. -/
theorem printHex_readable_digit :
    ∃ text, printHex [1, 2, 171] { columns := 6, lines := 0, seperator := ['0'] } = some text ∧
      text = ['0', '1', '0', '0', '2', '\n', 'A', 'B', '\n'] ∧
      readHex { columns := 6, lines := 0, seperator := ['0'] } text =
        [some 1, some 2, some 171] := by
  have hbytes : Untruncated { columns := 6, lines := 0, seperator := ['0'] } [1, 2, 171] :=
    ⟨by decide, .inl le_rfl⟩
  obtain ⟨n, rows, text, -, hprint, -, -, -, -, -, hread, -⟩ :=
    printHex_readable (by decide) hbytes
  refine ⟨text, hprint, ?_, hread⟩
  exact (Option.some.inj hprint).symm

end CppMisc.HexDump
