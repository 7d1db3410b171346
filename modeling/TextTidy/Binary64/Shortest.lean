import TextTidy.Binary64

/-!
# The shortest decimal of a floating-point number

The decimal with the fewest digits that reads back as the number and, of those, the nearest one. For
each count of digits only the two decimals next to the number can be the nearest that read back, so
these are tried, from one digit on; seventeen digits are always enough.
-/

namespace TextTidy.Binary64

/-- A decimal: `digits * 10 ^ exponent`. -/
structure Decimal where
  digits : Nat
  exponent : Int
deriving DecidableEq, Repr

/-- Whether a decimal reads back as the magnitude of a rank. -/
def Decimal.readsAs (d : Decimal) (rank : Nat) : Bool :=
  ofDecimal false d.digits d.exponent == ofRank false rank

/-- The number of decimal places before the point of a positive magnitude; negative when zeros
    follow the point. -/
def pointPlace (rank : Nat) : Int :=
  let whole := units rank / unitsPerOne
  if whole = 0 then 1 - (digitCount (unitsPerOne / units rank) : Int) else digitCount whole

/-- The better one of two neighbouring decimals, of those that read back as a rank, where it is
    known whether the lower one is the nearer. -/
def better? (rank : Nat) (below above : Decimal) (lowerIsNearer : Bool) : Option Decimal :=
  match below.readsAs rank, above.readsAs rank with
  | true, true => some (if lowerIsNearer then below else above)
  | true, false => some below
  | false, true => some above
  | false, false => none

/-- The better one of the two decimals of `count` digits next to a positive magnitude, of those that
    read back. -/
def neighbour? (rank count : Nat) : Option Decimal :=
  let exponent := pointPlace rank - count
  let numerator := units rank * Nat.pow 10 (-exponent).toNat
  let denominator := unitsPerOne * Nat.pow 10 exponent.toNat
  let lower := numerator / denominator
  better? rank ⟨lower, exponent⟩ ⟨lower + 1, exponent⟩
    (roundedQuotient numerator denominator == lower)

/-- The decimal that equals the magnitude of a rank. -/
def exactDecimal (rank : Nat) : Decimal := ⟨units rank * Nat.pow 5 1074, -1074⟩

/-- The shortest decimal that reads back as the magnitude of a rank. -/
def shortest (rank : Nat) : Decimal :=
  if rank = 0 then ⟨0, 0⟩
  else ((List.range 17).findSome? fun i => neighbour? rank (i + 1)).getD (exactDecimal rank)

/-! ## Writing it down -/

/-- The digits of a decimal without the zeros at their end, and the place of the point in them. -/
def Decimal.significant (d : Decimal) : List Char × Int :=
  let digits := Nat.toDigits 10 d.digits
  let kept := (digits.reverse.dropWhile (· == '0')).reverse
  (if kept.isEmpty then ['0'] else kept,
    if d.digits = 0 then 1 else (digits.length : Int) + d.exponent)

/-- Digits with a point in them; zeros fill the places that the digits do not reach, and there is at
    least one digit on both sides of the point. -/
def positional (digits : List Char) (point : Int) : List Char :=
  if point ≤ 0 then ['0', '.'] ++ List.replicate (-point).toNat '0' ++ digits
  else
    let places := point.toNat
    let fraction := digits.drop places
    digits.take places ++ List.replicate (places - digits.length) '0' ++ '.' ::
      (if fraction.isEmpty then ['0'] else fraction)

/-- Digits with the point behind the first one and a power of ten of two digits at least. -/
def scientific (digits : List Char) (point : Int) : List Char :=
  let power := point - 1
  let powerDigits := Nat.toDigits 10 power.natAbs
  let fraction := digits.drop 1
  digits.take 1 ++ (if fraction.isEmpty then [] else '.' :: fraction) ++
    ['e', if power < 0 then '-' else '+'] ++
    List.replicate (2 - powerDigits.length) '0' ++ powerDigits

/-- The decimal as text: positional from `0.0001` on and below `10 ^ 16`, scientific elsewhere. -/
def Decimal.text (d : Decimal) : List Char :=
  let (digits, point) := d.significant
  if -4 < point ∧ point ≤ 16 then positional digits point else scientific digits point

/-- The number as text, with the given words for what is no finite number. -/
def text (infinity noNumber : String) : Binary64 → String
  | .finite negative rank =>
    String.ofList ((if negative then ['-'] else []) ++ (shortest rank.val).text)
  | .infinite negative => (if negative then "-" else "") ++ infinity
  | .nan => noNumber

end TextTidy.Binary64
