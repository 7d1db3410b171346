import TextTidy.Json.Reader
import TextTidy.Text.Scan

/-!
# Where a rejected constant stands

The place of the first word for a number that strict JSON does not have, found by a scan that knows
strings and such words and nothing else of JSON.
-/

namespace TextTidy.Json

/-- What the scan takes as a whole: a string of so many characters, or a word. -/
inductive Token where
  | quoted (length : Nat)
  | constant (word : Constant)
deriving DecidableEq, Repr

/-- The number of characters up to the closing quote of a string, that quote included. A backslash
    takes the character behind it along, which may be anything but a line feed. -/
def closingQuote? : Text → Option Nat
  | [] => none
  | .char '"' :: _ => some 1
  | .char '\\' :: rest =>
    match rest with
    | [] => none
    | c :: rest => if c = .char '\n' then none else (closingQuote? rest).map (· + 2)
  | _ :: rest => (closingQuote? rest).map (· + 1)

/-- A string or a word for a number that strict JSON does not have. -/
def token : Pattern Token := fun _ c rest =>
  if c = .char '"' then (closingQuote? rest).map fun n => ⟨n, .quoted (n + 1)⟩
  else
    (oneOf? constantWords (c :: rest)).map fun (word, left) =>
      ⟨rest.length - left.length, .constant word⟩

/-- The number of characters before the first word among the pieces. -/
def beforeConstant? : List (Piece Token) → Option Nat
  | [] => none
  | .plain _ :: rest => (beforeConstant? rest).map (· + 1)
  | .found (.quoted length) :: rest => (beforeConstant? rest).map (· + length)
  | .found (.constant _) :: _ => some 0

/-- The offset of the first word outside all strings. -/
def constantOffset (s : Text) : Nat := (beforeConstant? (token.pieces s)).getD 0

end TextTidy.Json
