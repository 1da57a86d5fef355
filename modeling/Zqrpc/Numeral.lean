import Mathlib

/-! Decimal numerals over byte strings: printing of naturals and integers, and the
value of the leading digits of a text, as C-style readers take it. -/
namespace Numeral

abbrev Bytes := List UInt8

/-- The bytes of a string of characters below 256. -/
def ascii (text : String) : Bytes := text.toList.map fun c => c.toNat.toUInt8

def minus : UInt8 := 45
def plus : UInt8 := 43

def isDigit (b : UInt8) : Bool := 48 ≤ b && b ≤ 57

/-- Positional value of a digit string, most significant digit first. -/
def value (digits : Bytes) : Nat :=
  digits.foldl (fun total b => 10 * total + (b.toNat - 48)) 0

def decimal (n : Nat) : Bytes := (Nat.toDigits 10 n).map fun c => c.toNat.toUInt8

def decimalInt : Int → Bytes
  | .ofNat n => decimal n
  | .negSucc n => minus :: decimal (n + 1)

/-- The value of an optional sign and the digits after it; the text behind the
digits is not looked at. -/
def readInt (text : Bytes) : Int :=
  match text with
  | [] => 0
  | b :: rest =>
    if b = minus then -(value (rest.takeWhile isDigit) : Int)
    else if b = plus then value (rest.takeWhile isDigit)
    else value (text.takeWhile isDigit)

theorem value_append_singleton (digits : Bytes) (b : UInt8) :
    value (digits ++ [b]) = 10 * value digits + (b.toNat - 48) := by
  simp [value]

theorem digit_byte (d : Nat) (small : d < 10) :
    isDigit (Nat.digitChar d).toNat.toUInt8 = true ∧
      (Nat.digitChar d).toNat.toUInt8.toNat - 48 = d := by
  interval_cases d <;> decide

/-- A numeral of two or more digits is the numeral of the quotient and one digit. -/
theorem decimal_eq (n : Nat) :
    decimal n = if n < 10 then [(Nat.digitChar n).toNat.toUInt8]
      else decimal (n / 10) ++ [(Nat.digitChar (n % 10)).toNat.toUInt8] := by
  unfold decimal
  rw [Nat.toDigits_eq_if (by decide : 1 < 10)]
  split <;> simp

theorem decimal_digits (n : Nat) : ∀ b ∈ decimal n, isDigit b = true := by
  induction n using Nat.strong_induction_on with
  | _ n ih =>
    rw [decimal_eq]
    split
    · rename_i small
      simpa using (digit_byte n small).1
    · rename_i large
      intro b member
      rcases List.mem_append.mp member with front | last
      · exact ih (n / 10) (by omega) b front
      · rw [List.mem_singleton.mp last]
        exact (digit_byte (n % 10) (Nat.mod_lt _ (by omega))).1

theorem value_decimal (n : Nat) : value (decimal n) = n := by
  induction n using Nat.strong_induction_on with
  | _ n ih =>
    rw [decimal_eq]
    split
    · rename_i small
      simpa [value] using (digit_byte n small).2
    · rename_i large
      rw [value_append_singleton, ih (n / 10) (by omega),
        (digit_byte (n % 10) (Nat.mod_lt _ (by omega))).2]
      omega

theorem decimal_ne_nil (n : Nat) : decimal n ≠ [] := by
  rw [decimal_eq]
  split <;> simp

theorem takeWhile_decimal (n : Nat) : (decimal n).takeWhile isDigit = decimal n :=
  List.takeWhile_eq_self_iff.mpr (decimal_digits n)

/-- A numeral starts with a digit, so with neither a sign nor a blank. -/
theorem decimal_head (n : Nat) : ∃ b rest, decimal n = b :: rest ∧ isDigit b = true := by
  obtain ⟨b, rest, shape⟩ := List.exists_cons_of_ne_nil (decimal_ne_nil n)
  exact ⟨b, rest, shape, decimal_digits n b (by simp [shape])⟩

theorem digit_ne_minus (b : UInt8) (digit : isDigit b = true) : b ≠ minus := by
  rintro rfl
  exact absurd digit (by decide)

theorem digit_ne_plus (b : UInt8) (digit : isDigit b = true) : b ≠ plus := by
  rintro rfl
  exact absurd digit (by decide)

theorem readInt_decimal (n : Nat) : readInt (decimal n) = n := by
  obtain ⟨b, rest, shape, digit⟩ := decimal_head n
  have whole := takeWhile_decimal n
  rw [shape] at whole
  rw [shape, readInt]
  simp only [digit_ne_minus b digit, digit_ne_plus b digit, if_false, whole]
  rw [← shape, value_decimal]

/-- Printing and reading of integers are inverse. -/
theorem readInt_decimalInt (i : Int) : readInt (decimalInt i) = i := by
  cases i with
  | ofNat n => exact readInt_decimal n
  | negSucc n =>
    simp only [decimalInt, readInt, if_true, takeWhile_decimal, value_decimal]
    omega

end Numeral
