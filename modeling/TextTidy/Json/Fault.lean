import TextTidy.CodePoint
import TextTidy.Text.Digits

/-!
# Faults in JSON texts

Why a text cannot be read as JSON. A fault in the text itself says where it lies by what was left of
the text there.
-/

namespace TextTidy.Json

/-- What can be wrong with the form of a text. -/
inductive Flaw where
  | noValue
  | noName
  | noColon
  | noComma
  | trailingText
  | openString
  | controlCharacter
  | unknownEscape
  | incompleteEscape
  | secondMark
deriving DecidableEq, Repr

/-- The wording of a flaw. -/
def Flaw.message : Flaw → String
  | noValue => "Expecting value"
  | noName => "Expecting property name enclosed in double quotes"
  | noColon => "Expecting ':' delimiter"
  | noComma => "Expecting ',' delimiter"
  | trailingText => "Extra data"
  | openString => "Unterminated string starting at"
  | controlCharacter => "Invalid control character at"
  | unknownEscape => "Invalid \\escape"
  | incompleteEscape => "Invalid \\uXXXX escape"
  | secondMark => "Unexpected UTF-8 BOM (decode using utf-8-sig)"

/-- The words for numbers that JSON does not have. -/
inductive Constant where
  | nan
  | infinity
  | negativeInfinity
deriving DecidableEq, Repr

namespace Constant

/-- All such words. -/
def all : List Constant := [nan, infinity, negativeInfinity]

/-- The spelling of a word. -/
def name : Constant → String
  | nan => "NaN"
  | infinity => "Infinity"
  | negativeInfinity => "-Infinity"

end Constant

/-- A bound of the reader that a text exceeds. -/
inductive Limit where
  | nesting
  | digits (count : Nat)
deriving DecidableEq, Repr

/-- The wording of an exceeded bound. -/
def Limit.message : Limit → String
  | nesting => "maximum recursion depth exceeded"
  | digits count =>
    "Exceeds the limit (" ++ toString Text.maxIntegerDigits ++
      " digits) for integer string conversion: value has " ++ toString count ++
      " digits; use sys.set_int_max_str_digits() to increase the limit"

/-- Why a text cannot be read, with what was left of the text where that showed. -/
inductive Fault where
  | malformed (flaw : Flaw) (left : Text)
  | constant (word : Constant) (left : Text)
  | beyond (limit : Limit)
deriving DecidableEq, Repr

/-- What is left of a text after something was read from its start. -/
abbrev Shorter (s : Text) : Type := { rest : Text // rest.length < s.length }

/-- Reads something from the start of a text. -/
abbrev Reader (α : Type) : Type := (s : Text) → Except Fault (α × Shorter s)

end TextTidy.Json
