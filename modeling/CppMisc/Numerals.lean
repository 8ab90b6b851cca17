import Mathlib

/-! Numbers as text in a positional system: the digits that are printed for a number, and
the number that is read from digits. -/
namespace CppMisc.Numerals

def digitChar (upper : Bool) (d : ℕ) : Char :=
  if d < 10 then Char.ofNat (48 + d)
  else if upper then Char.ofNat (55 + d)
  else Char.ofNat (87 + d)

def digitValue (c : Char) : Option ℕ :=
  if '0' ≤ c ∧ c ≤ '9' then some (c.toNat - 48)
  else if 'A' ≤ c ∧ c ≤ 'Z' then some (c.toNat - 55)
  else if 'a' ≤ c ∧ c ≤ 'z' then some (c.toNat - 87)
  else none

/-- The digits of a number, the most significant one first. -/
def numeral (upper : Bool) (base v : ℕ) : List Char :=
  if v = 0 then ['0'] else (Nat.digits base v).reverse.map (digitChar upper)

/-- The number that a text denotes, where all of its characters are digits to the base. -/
def readNumeral (base : ℕ) (text : List Char) : Option ℕ :=
  if text.isEmpty then none
  else
    (text.reverse.mapM digitValue).bind fun ds =>
      if ds.all (· < base) then some (Nat.ofDigits base ds) else none

def padLeft (width : ℕ) (fill : Char) (text : List Char) : List Char :=
  List.replicate (width - text.length) fill ++ text

lemma digitValue_digitChar (upper : Bool) {d : ℕ} (hd : d < 16) :
    digitValue (digitChar upper d) = some d := by
  cases upper <;> interval_cases d <;> rfl

lemma mapM_digitChar (upper : Bool) {ds : List ℕ} (hds : ∀ d ∈ ds, d < 16) :
    (ds.map (digitChar upper)).mapM digitValue = some ds := by
  induction ds with
  | nil => rfl
  | cons d ds ih =>
    obtain ⟨hd, hrest⟩ := List.forall_mem_cons.mp hds
    rw [List.map_cons, List.mapM_cons, digitValue_digitChar upper hd, ih hrest]
    rfl

lemma readNumeral_digits (upper : Bool) {base : ℕ} {ds : List ℕ} (hne : ds ≠ [])
    (hds : ∀ d ∈ ds, d < 16) :
    readNumeral base (ds.reverse.map (digitChar upper)) =
      if ds.all (· < base) then some (Nat.ofDigits base ds) else none := by
  have hempty : (ds.reverse.map (digitChar upper)).isEmpty = false := by
    simpa [List.isEmpty_eq_false_iff] using hne
  rw [readNumeral, hempty, ← List.map_reverse, List.reverse_reverse, mapM_digitChar upper hds]
  rfl

/-- Hexadecimal digits are no decimal numeral of the same number from ten on: either there
is a letter among them, or they are worth less. -/
lemma readNumeral_decimal_iff (upper : Bool) (v : ℕ) :
    readNumeral 10 (numeral upper 16 v) = some v ↔ v < 10 := by
  rcases Nat.eq_zero_or_pos v with rfl | hv
  · exact iff_of_true rfl (by norm_num)
  have hne : Nat.digits 16 v ≠ [] := Nat.digits_ne_nil_iff_ne_zero.mpr hv.ne'
  have hlt : ∀ d ∈ Nat.digits 16 v, d < 16 := fun d hd =>
    Nat.digits_lt_base (by norm_num) hd
  rw [numeral, if_neg hv.ne', readNumeral_digits upper hne hlt]
  rw [Nat.digits_def' (by norm_num) hv] at hne hlt ⊢
  constructor
  · intro h
    split_ifs at h with hall
    have hsum := Option.some.inj h
    rw [Nat.ofDigits_cons] at hsum
    have hle : Nat.ofDigits 10 (Nat.digits 16 (v / 16)) ≤ v / 16 := by
      have hmono := Nat.ofDigits_monotone (Nat.digits 16 (v / 16)) (by norm_num : 10 ≤ 16)
      rwa [Nat.ofDigits_digits] at hmono
    have hfirst : v % 16 < 10 := by
      simpa using (List.all_eq_true.mp hall) (v % 16) List.mem_cons_self
    omega
  · intro h
    have hmod : v % 16 = v := Nat.mod_eq_of_lt (by omega)
    have hdiv : v / 16 = 0 := Nat.div_eq_of_lt (by omega)
    simp [hmod, hdiv, h]

lemma numeral_digits (upper : Bool) {base : ℕ} (hlow : 1 < base) (hhigh : base ≤ 16) (v : ℕ) :
    ∀ c ∈ numeral upper base v, ∃ d < 16, c = digitChar upper d := by
  intro c hc
  rw [numeral] at hc
  split_ifs at hc with hv
  · obtain rfl := List.mem_singleton.mp hc
    exact ⟨0, by norm_num, by cases upper <;> rfl⟩
  · obtain ⟨d, hd, rfl⟩ := List.mem_map.mp hc
    exact ⟨d, (Nat.digits_lt_base hlow (List.mem_reverse.mp hd)).trans_le hhigh, rfl⟩

lemma readNumeral_numeral (upper : Bool) {base : ℕ} (hlow : 1 < base) (hhigh : base ≤ 16)
    (v : ℕ) : readNumeral base (numeral upper base v) = some v := by
  rw [numeral]
  split_ifs with hv
  · rw [hv]
    simp [readNumeral, digitValue, Nat.zero_lt_of_lt hlow]
  · have hlt : ∀ d ∈ Nat.digits base v, d < base := fun d hd => Nat.digits_lt_base hlow hd
    rw [readNumeral_digits upper (Nat.digits_ne_nil_iff_ne_zero.mpr hv)
      fun d hd => (hlt d hd).trans_le hhigh, if_pos, Nat.ofDigits_digits]
    simpa using hlt

lemma numeral_short (upper : Bool) {v : ℕ} (hv : v < 16) :
    numeral upper 16 v = [digitChar upper v] := by
  unfold numeral
  split_ifs with hzero
  · subst hzero
    cases upper <;> rfl
  · simp [Nat.digits_of_lt 16 v hzero hv]

lemma numeral_two (upper : Bool) {v : ℕ} (hlo : 16 ≤ v) (hhi : v < 256) :
    numeral upper 16 v = [digitChar upper (v / 16), digitChar upper (v % 16)] := by
  have hq : v / 16 < 16 := by omega
  have hq0 : v / 16 ≠ 0 := by omega
  rw [numeral, if_neg (by omega), Nat.digits_def' (by norm_num) (by omega),
    Nat.digits_of_lt 16 _ hq0 hq]
  rfl

/-- A byte in hexadecimal, filled up to two digits. -/
lemma padLeft_byte (upper : Bool) {v : ℕ} (hv : v < 256) :
    padLeft 2 '0' (numeral upper 16 v) = [digitChar upper (v / 16), digitChar upper (v % 16)] := by
  rcases Nat.lt_or_ge v 16 with hlo | hlo
  · rw [numeral_short upper hlo, Nat.div_eq_of_lt hlo, Nat.mod_eq_of_lt hlo]
    cases upper <;> rfl
  · rw [numeral_two upper hlo hv]
    rfl

lemma readNumeral_byte (upper : Bool) {v : ℕ} (hv : v < 256) :
    readNumeral 16 [digitChar upper (v / 16), digitChar upper (v % 16)] = some v := by
  have hds : ∀ d ∈ [v % 16, v / 16], d < 16 := by
    simp only [List.forall_mem_cons, List.not_mem_nil, false_imp_iff, implies_true, and_true]
    omega
  have hall : ([v % 16, v / 16].all (· < 16)) = true := by
    simpa using hds
  refine (readNumeral_digits upper (List.cons_ne_nil _ _) hds).trans ?_
  rw [hall, if_pos rfl, Nat.ofDigits_cons, Nat.ofDigits_singleton]
  congr 1
  omega

end CppMisc.Numerals
