import CppMisc.ListRows
import CppMisc.Numerals

/-! `print_hex` of `disasm.cc` over an output stream whose manipulators stay in force. -/
namespace CppMisc.HexDump
open ListRows Numerals

/-- A `std::ostringstream`: what was written and the formatting state. -/
structure OStream where
  text : List Char
  uppercase : Bool
  hex : Bool
  fill : Char
  width : ℕ
  deriving DecidableEq, Repr

namespace OStream

def empty : OStream := ⟨[], false, false, ' ', 0⟩

/-- A formatted insertion fills up to the width, which holds for one insertion only. -/
def put (s : OStream) (field : List Char) : OStream :=
  { s with text := s.text ++ padLeft s.width s.fill field, width := 0 }

def putUnsigned (s : OStream) (v : UInt32) : OStream :=
  s.put (numeral s.uppercase (if s.hex then 16 else 10) v.toNat)

/-- `<< int`, which shows a negative value as an unsigned one in hexadecimal. -/
def putInt (s : OStream) (v : Int32) : OStream :=
  if s.hex then s.put (numeral s.uppercase 16 v.toUInt32.toNat)
  else if v < 0 then s.put ('-' :: numeral s.uppercase 10 v.toInt.natAbs)
  else s.put (numeral s.uppercase 10 v.toInt.natAbs)

def endl (s : OStream) : OStream := { s with text := s.text ++ ['\n'] }

end OStream

structure PrintOptions where
  columns : Int32 := 80
  lines : Int32 := 1
  seperator : List Char := [' ']
  upperCase : Bool := true
  /-- No `std::string` is longer. -/
  seperator_size : seperator.length < 2 ^ 63 := by decide

/-- The `int` is converted to `size_t` before the division. -/
def numPerLine (o : PrintOptions) : ℕ :=
  (o.columns.toInt % 2 ^ 64).toNat / ((2 + o.seperator.length) % 2 ^ 64)

/-- The exit of the loop after the last line that is wanted. -/
def truncated (o : PrintOptions) (length : ℕ) (stream : OStream) : OStream :=
  let rem := Int32.ofNat (length ⌈/⌉ numPerLine o) - o.lines
  if rem = 0 then stream
  else (((stream.put ['.', '.', '.', ' ']).putInt rem).put [' ', 'm', 'o', 'r', 'e']).endl

/-- The loop at `position`, or none where it divides by zero. -/
def printLoop (o : PrintOptions) (length : ℕ) :
    List UInt8 → ℕ → Int32 → OStream → Option OStream
  | [], _, _, stream => some stream
  | byte :: rest, position, lines, stream =>
      let stream := { stream with hex := true, width := 2, fill := '0' }.putUnsigned byte.toUInt32
      if numPerLine o = 0 then none
      else if (position + 1) % numPerLine o = 0 ∨ rest = [] then
        if lines + 1 = o.lines then some (truncated o length stream.endl)
        else printLoop o length rest (position + 1) (lines + 1) stream.endl
      else printLoop o length rest (position + 1) lines (stream.put o.seperator)

def printHex (bytes : List UInt8) (o : PrintOptions) : Option (List Char) :=
  if bytes.length < 1 then some []
  else
    let stream := if o.upperCase then { OStream.empty with uppercase := true } else OStream.empty
    (printLoop o bytes.length bytes 0 0 stream).map OStream.text

/-! One row of the dump. -/

def byteText (upper : Bool) (byte : UInt8) : List Char :=
  [digitChar upper (byte.toNat / 16), digitChar upper (byte.toNat % 16)]

def rowText (upper : Bool) (seperator : List Char) (row : List UInt8) : List Char :=
  seperator.intercalate (row.map (byteText upper))

def rowLine (upper : Bool) (seperator : List Char) (row : List UInt8) : List Char :=
  rowText upper seperator row ++ ['\n']

/-- A stream that the loop has written bytes to. -/
def printing (upper : Bool) (text : List Char) : OStream := ⟨text, upper, true, '0', 0⟩

lemma putUnsigned_byte (stream : OStream) (byte : UInt8) :
    ({ stream with hex := true, width := 2, fill := '0' } : OStream).putUnsigned byte.toUInt32 =
      printing stream.uppercase (stream.text ++ byteText stream.uppercase byte) := by
  have hbyte : byte.toUInt32.toNat < 256 := by
    rw [UInt8.toNat_toUInt32]
    exact byte.toNat_lt
  simp only [OStream.putUnsigned, OStream.put, if_pos, padLeft_byte _ hbyte]
  rfl

lemma put_printing (upper : Bool) (text field : List Char) :
    (printing upper text).put field = printing upper (text ++ field) := by
  simp [printing, OStream.put, padLeft]

lemma endl_printing (upper : Bool) (text : List Char) :
    (printing upper text).endl = printing upper (text ++ ['\n']) := rfl

/-- Behind the bytes an `int` is printed as they are, in hexadecimal. -/
lemma putInt_printing (upper : Bool) (text : List Char) {v : ℕ} (hv : v < 2 ^ 31) :
    (printing upper text).putInt (Int32.ofNat v) = printing upper (text ++ numeral upper 16 v) := by
  have hnat : (Int32.ofNat v).toUInt32.toNat = v := by
    rw [Int32.toUInt32_ofNat', UInt32.toNat_ofNat', Nat.mod_eq_of_lt (by omega)]
  show (printing upper text).put (numeral upper 16 (Int32.ofNat v).toUInt32.toNat) = _
  rw [hnat, put_printing]

/-- The loop over the bytes up to the end of a line. -/
lemma printLoop_row {o : PrintOptions} (hn : numPerLine o ≠ 0) (length : ℕ) {row tail : List UInt8}
    (hrow : row ≠ []) {position : ℕ}
    (hend : position % numPerLine o + row.length = numPerLine o ∨
      position % numPerLine o + row.length < numPerLine o ∧ tail = [])
    (lines : Int32) (stream : OStream) :
    printLoop o length (row ++ tail) position lines stream =
      let printed := printing stream.uppercase
        (stream.text ++ rowLine stream.uppercase o.seperator row)
      if lines + 1 = o.lines then some (truncated o length printed)
      else printLoop o length tail (position + row.length) (lines + 1) printed := by
  induction row generalizing position stream with
  | nil => exact absurd rfl hrow
  | cons byte row ih =>
    have hmod := Nat.mod_add_div position (numPerLine o)
    rcases eq_or_ne row [] with rfl | hne
    · -- the byte ends the line
      have hlast : (position + 1) % numPerLine o = 0 ∨ tail = [] := by
        refine hend.imp (fun hfull => ?_) And.right
        have hsum : position + 1 = numPerLine o * (position / numPerLine o + 1) := by
          rw [Nat.mul_add, Nat.mul_one]
          simp only [List.length_singleton] at hfull
          omega
        rw [hsum, Nat.mul_mod_right]
      simp only [List.singleton_append, printLoop, if_neg hn, if_pos hlast, putUnsigned_byte,
        endl_printing]
      simp [rowLine, rowText]
    · have hlen : 1 ≤ row.length := List.length_pos_of_ne_nil hne
      have hshort : position % numPerLine o + 1 < numPerLine o := by
        simp only [List.length_cons] at hend
        omega
      have hnext : (position + 1) % numPerLine o = position % numPerLine o + 1 := by
        rw [Nat.add_mod, Nat.mod_eq_of_lt (by omega : 1 < numPerLine o),
          Nat.mod_eq_of_lt hshort]
      have hopen : ¬ ((position + 1) % numPerLine o = 0 ∨ row ++ tail = []) := by
        rw [hnext]
        simp [hne]
      have hend' : (position + 1) % numPerLine o + row.length = numPerLine o ∨
          (position + 1) % numPerLine o + row.length < numPerLine o ∧ tail = [] := by
        rw [hnext]
        rw [List.length_cons] at hend
        exact hend.imp (fun h => by omega) fun h => ⟨by omega, h.2⟩
      have hrest := ih hne hend'
        (printing stream.uppercase (stream.text ++ byteText stream.uppercase byte ++ o.seperator))
      simp only [List.cons_append, printLoop, if_neg hn, if_neg hopen, putUnsigned_byte,
        put_printing, hrest]
      have htext : rowLine stream.uppercase o.seperator (byte :: row) =
          byteText stream.uppercase byte ++ o.seperator ++
            rowLine stream.uppercase o.seperator row := by
        rw [rowLine, rowText, List.map_cons, List.intercalate_cons_of_ne_nil (by simpa using hne)]
        simp [rowLine, rowText]
      have hpos : position + 1 + row.length = position + (byte :: row).length := by
        rw [List.length_cons]
        omega
      simp [printing, htext, hpos]

end CppMisc.HexDump
