/-!
# Digits

Decimal digits are given by value, the one that counts most first. A byte is spelt by two
hexadecimal digits.
-/

namespace TextTidy.Text

/-- The longest integer, in digits, that is read from text. -/
def maxIntegerDigits : Nat := 4300

/-- The number that decimal digits stand for. -/
def numberOfDigits (digits : List Nat) : Nat := digits.foldl (fun n digit => 10 * n + digit) 0

/-- The value of a hexadecimal digit. -/
def hexDigit? (c : Char) : Option Nat :=
  if '0' ≤ c ∧ c ≤ '9' then some (c.toNat - '0'.toNat)
  else if 'a' ≤ c ∧ c ≤ 'f' then some (c.toNat - 'a'.toNat + 10)
  else if 'A' ≤ c ∧ c ≤ 'F' then some (c.toNat - 'A'.toNat + 10)
  else none

/-- The byte that two hexadecimal digits spell. -/
def hexByte? (high low : Char) : Option UInt8 := do
  let high ← hexDigit? high
  let low ← hexDigit? low
  return UInt8.ofNat (16 * high + low)

end TextTidy.Text
