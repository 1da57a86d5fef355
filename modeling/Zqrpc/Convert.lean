import Zqrpc.ZError

/-! The two text conversions the protocol rests on: `boost::lexical_cast` between
`std::size_t` and text, and `atoi` as glibc computes it, `(int) strtol(text, NULL, 10)`. -/
namespace Zqrpc

open Numeral

/-- The number of values of a 64-bit `std::size_t`. -/
def sizeMod : Nat := 2 ^ 64

/-- Digits to the end of the text, with a value in range. -/
def unsignedDigits (text : Bytes) : Option Nat :=
  if text ≠ [] ∧ text.all isDigit = true ∧ value text < sizeMod then some (value text) else none

/-- `lexical_cast<std::size_t>` takes one sign before the digits; a minus sign
negates modulo 2^64. -/
def lexicalCast (text : Bytes) : Option Nat :=
  match text with
  | [] => none
  | b :: rest =>
    if b = minus then (unsignedDigits rest).map fun n => (sizeMod - n) % sizeMod
    else if b = plus then unsignedDigits rest
    else unsignedDigits text

/-- `isspace` in the C locale. -/
def isSpace (b : UInt8) : Bool := b == 32 || (9 ≤ b && b ≤ 13)

/-- `strtol` stops at the ends of a 64-bit `long`, and the cast to `int` keeps
the low 32 bits. -/
def atoi (text : CStr) : ErrorCodeE :=
  Int32.ofInt (max (-2 ^ 63) (min (2 ^ 63 - 1) (readInt (text.bytes.dropWhile isSpace))))

theorem lexicalCast_decimal (n : Nat) (fits : n < sizeMod) : lexicalCast (decimal n) = some n := by
  obtain ⟨b, rest, shape, digit⟩ := decimal_head n
  have read : unsignedDigits (decimal n) = some n := by
    have digits : (decimal n).all isDigit = true := List.all_eq_true.mpr (decimal_digits n)
    simp [unsignedDigits, decimal_ne_nil, digits, value_decimal, fits]
  rw [shape] at read ⊢
  simp [lexicalCast, digit_ne_minus b digit, digit_ne_plus b digit, read]

theorem decimal_noZero (n : Nat) : ∀ b ∈ decimal n, b ≠ 0 := by
  rintro b member rfl
  exact absurd (decimal_digits n 0 member) (by decide)

theorem decimalInt_noZero (i : Int) : ∀ b ∈ decimalInt i, b ≠ 0 := by
  cases i with
  | ofNat n => exact decimal_noZero n
  | negSucc n =>
    intro b member
    rcases List.mem_cons.mp member with rfl | member
    · decide
    · exact decimal_noZero _ b member

theorem digit_not_space (b : UInt8) (digit : isDigit b = true) : isSpace b = false := by
  simp only [isDigit, isSpace, Bool.and_eq_true, decide_eq_true_eq, Bool.or_eq_false_iff,
    beq_eq_false_iff_ne, Bool.and_eq_false_iff, decide_eq_false_iff_not, UInt8.le_iff_toNat_le,
    ne_eq, ← UInt8.toNat_inj] at *
  simp at *
  omega

theorem dropWhile_decimalInt (i : Int) : (decimalInt i).dropWhile isSpace = decimalInt i := by
  cases i with
  | ofNat n =>
    obtain ⟨b, rest, shape, digit⟩ := decimal_head n
    simp [decimalInt, shape, digit_not_space b digit]
  | negSucc n => simp [decimalInt, show isSpace minus = false by decide]

/-- Every code the worker prints is the code the channel reads. -/
theorem atoi_decimalInt (code : ErrorCodeE) : atoi (cStr (decimalInt code.toInt)) = code := by
  have text : (cStr (decimalInt code.toInt)).bytes = decimalInt code.toInt :=
    List.takeWhile_eq_self_iff.mpr fun b member => by simpa using decimalInt_noZero _ b member
  have below := code.toInt_lt
  have above := code.le_toInt
  rw [atoi, text, dropWhile_decimalInt, readInt_decimalInt, min_eq_right (by omega),
    max_eq_right (by omega), Int32.ofInt_toInt]

end Zqrpc
