import TextTidy.Text.Blank
import TextTidy.Text.Digits

/-!
# Integers in text

Reading a whole number as people type it: blanks around it, a sign, decimal digits of any script,
and single underscores between digits.
-/

namespace TextTidy.Text

/-- The zeros of the decimal digits of all scripts; the other nine digits follow each of them. The
    table is that of version 14 of the Unicode character database. -/
def decimalZeros : List Nat :=
  [0x30, 0x660, 0x6F0, 0x7C0, 0x966, 0x9E6, 0xA66, 0xAE6, 0xB66, 0xBE6, 0xC66, 0xCE6, 0xD66, 0xDE6,
   0xE50, 0xED0, 0xF20, 0x1040, 0x1090, 0x17E0, 0x1810, 0x1946, 0x19D0, 0x1A80, 0x1A90, 0x1B50,
   0x1BB0, 0x1C40, 0x1C50, 0xA620, 0xA8D0, 0xA900, 0xA9D0, 0xA9F0, 0xAA50, 0xABF0, 0xFF10, 0x104A0,
   0x10D30, 0x11066, 0x110F0, 0x11136, 0x111D0, 0x112F0, 0x11450, 0x114D0, 0x11650, 0x116C0,
   0x11730, 0x118E0, 0x11950, 0x11C50, 0x11D50, 0x11DA0, 0x16A60, 0x16AC0, 0x16B50, 0x1D7CE,
   0x1D7D8, 0x1D7E2, 0x1D7EC, 0x1D7F6, 0x1E140, 0x1E2F0, 0x1E950, 0x1FBF0]

/-- The value of a decimal digit of any script. -/
def decimalDigit? (c : Char) : Option Nat :=
  (decimalZeros.find? fun start => start ≤ c.toNat && c.toNat < start + 10).map (c.toNat - ·)

/-- Whether a character may surround a number: a space, a cursor control of ASCII, or white space
    beyond ASCII. -/
def isNumberMargin (c : Char) : Bool :=
  c == ' ' || (0x09 ≤ c.toNat && c.toNat ≤ 0x0D) ||
    (0x80 ≤ c.toNat && (CodePoint.char c).isBlank)

/-- The digits of a number, where a single underscore may stand between two of them. -/
def digitGroup? : List Char → Option (List Nat)
  | [] => none
  | [c] => (decimalDigit? c).map ([·])
  | c :: '_' :: rest => do
    let digit ← decimalDigit? c
    let others ← digitGroup? rest
    return digit :: others
  | c :: rest => do
    let digit ← decimalDigit? c
    let others ← digitGroup? rest
    return digit :: others

/-- The whole number that a string spells. -/
def integer? (s : String) : Option Int :=
  let core := ((s.toList.dropWhile isNumberMargin).reverse.dropWhile isNumberMargin).reverse
  let unsigned? (digits : List Char) : Option Nat := do
    let group ← digitGroup? digits
    if group.length ≤ maxIntegerDigits then some (numberOfDigits group) else none
  match core with
  | '-' :: digits => (unsigned? digits).map fun n => -(n : Int)
  | '+' :: digits => (unsigned? digits).map Int.ofNat
  | digits => (unsigned? digits).map Int.ofNat

end TextTidy.Text
