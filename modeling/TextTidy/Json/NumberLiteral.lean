import TextTidy.Binary64
import TextTidy.Json.Value
import TextTidy.Json.Fault

/-!
# Numbers in JSON texts

A number is a sign, digits without superfluous zeros in front, and perhaps a fraction and an
exponent. A point or an exponent mark that no digits follow does not belong to the number.
-/

namespace TextTidy.Json

/-- Whether a code point is a decimal digit of ASCII. -/
def isDigit : CodePoint → Bool
  | .char c => c.isDigit
  | .surrogate _ => false

/-- The digits at the start of a text, by value. -/
def leadingDigits (s : Text) : List Nat :=
  (s.takeWhile isDigit).map fun c => c.value - '0'.toNat

/-- What stands behind the digits at the start of a text. -/
def behindDigits (s : Text) : Text := s.dropWhile isDigit

/-- A number as it is written. Only a number with neither fraction nor exponent is an integer. -/
structure NumberLiteral where
  /-- Whether there is a minus sign. -/
  negative : Bool
  /-- The digits before the point. -/
  whole : List Nat
  /-- The digits behind the point, none if there is no point. -/
  fraction : List Nat
  /-- The exponent, if there is one. -/
  exponent : Option Int
deriving DecidableEq, Repr

/-- The digits before the point: a single zero, or digits that begin with no zero. -/
def wholePart? : Text → Option (List Nat × Text)
  | .char '0' :: rest => some ([0], rest)
  | s => if (leadingDigits s).isEmpty then none else some (leadingDigits s, behindDigits s)

/-- The digits behind a point, if there is one with digits behind it. -/
def fractionPart : Text → List Nat × Text
  | .char '.' :: rest =>
    if (leadingDigits rest).isEmpty then ([], .char '.' :: rest)
    else (leadingDigits rest, behindDigits rest)
  | s => ([], s)

/-- Whether a number begins with a minus sign, and what stands behind that. -/
def minusSign : Text → Bool × Text
  | .char '-' :: rest => (true, rest)
  | s => (false, s)

/-- The sign before the digits of an exponent; a plus sign may be written. -/
def exponentSign : Text → Bool × Text
  | .char '-' :: rest => (true, rest)
  | .char '+' :: rest => (false, rest)
  | s => (false, s)

/-- The exponent, if there is a mark for one with digits behind it. -/
def exponentPart : Text → Option Int × Text
  | [] => (none, [])
  | mark :: rest =>
    let (negative, s) := exponentSign rest
    let digits := leadingDigits s
    if (mark == .char 'e' || mark == .char 'E') && !digits.isEmpty then
      let n := Text.numberOfDigits digits
      (some (if negative then -(n : Int) else n), behindDigits s)
    else (none, mark :: rest)

/-- The number at the start of a text, and what is left behind it. -/
def numberLiteral? (s : Text) : Option (NumberLiteral × Text) :=
  match wholePart? (minusSign s).2 with
  | none => none
  | some (whole, behind) =>
    let (fraction, behind) := fractionPart behind
    let (exponent, behind) := exponentPart behind
    some (⟨(minusSign s).1, whole, fraction, exponent⟩, behind)

/-- The value of a number. Integers of too many digits are refused, the sign not counted. -/
def NumberLiteral.value (n : NumberLiteral) : Except Limit Value :=
  if n.fraction.isEmpty && n.exponent.isNone then
    if Text.maxIntegerDigits < n.whole.length then .error (.digits n.whole.length)
    else
      let magnitude := Text.numberOfDigits n.whole
      .ok (.int (if n.negative then -(magnitude : Int) else magnitude))
  else
    let digits := Text.numberOfDigits (n.whole ++ n.fraction)
    .ok (.float (Binary64.ofDecimal n.negative digits (n.exponent.getD 0 - n.fraction.length)))

/-! ## Reading always takes something -/

theorem behindDigits_length_le (s : Text) : (behindDigits s).length ≤ s.length :=
  (List.dropWhile_suffix isDigit).length_le

theorem behindDigits_shorter {s : Text} (h : (leadingDigits s).isEmpty = false) :
    (behindDigits s).length < s.length := by
  have hs : s.takeWhile isDigit ++ behindDigits s = s := List.takeWhile_append_dropWhile
  have hl := congrArg List.length hs
  have hd : 0 < (s.takeWhile isDigit).length := by
    cases ht : s.takeWhile isDigit with
    | nil => simp [leadingDigits, ht] at h
    | cons c cs => simp
  rw [List.length_append] at hl
  omega

theorem wholePart?_shorter {s left : Text} {digits : List Nat}
    (h : wholePart? s = some (digits, left)) : left.length < s.length := by
  unfold wholePart? at h
  split at h
  · cases h
    simp
  · split at h
    · cases h
    · rename_i hd
      cases h
      exact behindDigits_shorter (by simpa using hd)

theorem fractionPart_length_le (s : Text) : (fractionPart s).2.length ≤ s.length := by
  unfold fractionPart
  split
  · rename_i rest
    have := behindDigits_length_le rest
    split <;> simp
    omega
  · exact Nat.le_refl _

theorem exponentPart_length_le (s : Text) : (exponentPart s).2.length ≤ s.length := by
  cases s with
  | nil => simp [exponentPart]
  | cons mark rest =>
    have hsign : (exponentSign rest).2.length ≤ rest.length := by
      unfold exponentSign
      split <;> simp
    have := behindDigits_length_le (exponentSign rest).2
    simp only [exponentPart]
    split <;> simp
    omega

theorem minusSign_length_le (s : Text) : (minusSign s).2.length ≤ s.length := by
  unfold minusSign
  split <;> simp

theorem numberLiteral?_shorter {s left : Text} {n : NumberLiteral}
    (h : numberLiteral? s = some (n, left)) : left.length < s.length := by
  unfold numberLiteral? at h
  split at h
  · cases h
  · rename_i whole behind hw
    cases h
    have hbehind := Nat.le_trans (exponentPart_length_le _) (fractionPart_length_le behind)
    exact Nat.lt_of_lt_of_le (Nat.lt_of_le_of_lt hbehind (wholePart?_shorter hw))
      (minusSign_length_le s)

end TextTidy.Json
