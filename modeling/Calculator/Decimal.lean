/-!
# Decimal numbers

Integers are read and written in decimal digits. A written number has no leading zeros, and a minus
sign in front when it is negative. `Decimal.value_ofNat` says that reading what was written gives
the number back.
-/

namespace Calculator.Decimal

/-- The number that a string of decimal digits denotes; leading zeros do not count. -/
def value (digits : List Char) : Nat := Nat.ofDigitChars 10 digits 0

/-- The decimal digits of a natural number, without leading zeros. -/
def ofNat (n : Nat) : String := String.ofList (Nat.toDigits 10 n)

/-- The decimal form of an integer, with a minus sign when it is negative. -/
def ofInt : Int → String
  | .ofNat n => ofNat n
  | .negSucc n => "-" ++ ofNat (n + 1)

/-- The written form of a natural number is its list of digits. -/
@[simp] theorem toList_ofNat (n : Nat) : (ofNat n).toList = Nat.toDigits 10 n :=
  String.toList_ofList

/-- Reading the digits of a number gives the number. -/
theorem value_ofNat (n : Nat) : value (ofNat n).toList = n := by
  rw [toList_ofNat]
  exact Nat.ofDigitChars_ten_toDigits

/-- A written number consists of digits only. -/
theorem isDigit_of_mem_ofNat {n : Nat} {c : Char} (h : c ∈ (ofNat n).toList) : c.isDigit := by
  rw [toList_ofNat] at h
  exact Nat.isDigit_of_mem_toDigits (by decide) (by decide) h

/-- A written number has at least one digit. -/
theorem ofNat_ne_nil (n : Nat) : (ofNat n).toList ≠ [] := by
  rw [toList_ofNat]
  exact Nat.toDigits_ne_nil

end Calculator.Decimal
