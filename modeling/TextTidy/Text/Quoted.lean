import TextTidy.Text.Unprintable

/-!
# Quoted text

How a message quotes a text that somebody gave: between single quotes, or between double quotes when
that saves escaping a single one, with everything that has no picture written by number.
-/

namespace TextTidy.Text

/-- The quote mark `'`. -/
def singleQuote : Char := '\x27'

/-- The digits of a number in lower-case hexadecimal, at least `width` of them. -/
def hexDigits (width n : Nat) : List Char :=
  let digits := Nat.toDigits 16 n
  List.replicate (width - digits.length) '0' ++ digits

/-- A character as it stands between quote marks of the given kind. -/
def quotedChar (mark c : Char) : List Char :=
  if c == mark || c == '\\' then ['\\', c]
  else if c == '\t' then ['\\', 't']
  else if c == '\n' then ['\\', 'n']
  else if c == '\r' then ['\\', 'r']
  else if (CodePoint.char c).isUnprintable then
    if c.toNat < 0x100 then '\\' :: 'x' :: hexDigits 2 c.toNat
    else if c.toNat < 0x10000 then '\\' :: 'u' :: hexDigits 4 c.toNat
    else '\\' :: 'U' :: hexDigits 8 c.toNat
  else [c]

/-- The quote mark for a string: single, unless it holds single quotes and no double ones. -/
def quoteMark (s : String) : Char :=
  if s.toList.contains singleQuote && !s.toList.contains '"' then '"' else singleQuote

/-- A string between quote marks. -/
def quoted (s : String) : String :=
  let mark := quoteMark s
  String.ofList (mark :: s.toList.flatMap (quotedChar mark) ++ [mark])

end TextTidy.Text
