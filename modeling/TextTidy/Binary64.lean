/-!
# Binary floating-point numbers of 64 bits

The finite magnitudes of the format, put in order, are numbered from zero on; this number is the
rank. The magnitudes of one exponent are evenly spaced, so that a rank holds the exponent in its
quotient by `2 ^ 52` and the fraction in the remainder, and rounding up past the last fraction of an
exponent leads to the first of the next one. All arithmetic is exact, on natural numbers.
-/

namespace TextTidy

namespace Binary64

/-- The number of fractions that each exponent has. -/
def fractions : Nat := Nat.pow 2 52

/-- The number of finite magnitudes. -/
def magnitudes : Nat := 2047 * fractions

/-- The number of smallest positive magnitudes that make one. -/
def unitsPerOne : Nat := Nat.pow 2 1074

end Binary64

/-- A floating-point number: a finite one by sign and rank, an infinity, or no number at all. -/
inductive Binary64 where
  | finite (negative : Bool) (rank : Fin Binary64.magnitudes)
  | infinite (negative : Bool)
  | nan
deriving DecidableEq, Repr

namespace Binary64

/-- A zero of either sign. -/
def signedZero (negative : Bool) : Binary64 :=
  .finite negative ⟨0, by decide⟩

/-- The exponent of the spacing around a rank, counted from the smallest. -/
def binade (rank : Nat) : Nat := rank / fractions - 1

/-- The magnitude of a rank, in units of the smallest positive magnitude. -/
def units (rank : Nat) : Nat := (rank - binade rank * fractions) * Nat.pow 2 (binade rank)

/-- The quotient rounded to the nearest natural number, halves to the even one. -/
def roundedQuotient (numerator denominator : Nat) : Nat :=
  let quotient := numerator / denominator
  let remainder := numerator % denominator
  if 2 * remainder < denominator then quotient
  else if denominator < 2 * remainder then quotient + 1
  else quotient + quotient % 2

/-- The rank nearest to a quotient, halves to the even one, as if there were no greatest rank. -/
def nearestRank (numerator denominator : Nat) : Nat :=
  let scaled := numerator * unitsPerOne
  let binade := (scaled / denominator).log2 - 52
  binade * fractions + roundedQuotient scaled (denominator * Nat.pow 2 binade)

/-- The number of a sign and a rank; ranks past the greatest are infinite. -/
def ofRank (negative : Bool) (rank : Nat) : Binary64 :=
  if h : rank < magnitudes then .finite negative ⟨rank, h⟩ else .infinite negative

/-- Whether a number is neither below zero nor above a bound. A zero of either sign is within every
    bound, and what is no number is within none. -/
def isWithin (bound : Nat) : Binary64 → Bool
  | .finite negative rank => (!negative || rank.val == 0) && units rank.val ≤ bound * unitsPerOne
  | .infinite _ => false
  | .nan => false

/-- The number of decimal digits of a natural number. -/
def digitCount (n : Nat) : Nat := (Nat.toDigits 10 n).length

/-- The number nearest to `digits * 10 ^ exponent` with the given sign. Decimals of more than 310
    places before the point are infinite, and those that begin more than 330 places behind it are
    zero; saying so at once keeps the arithmetic small. -/
def ofDecimal (negative : Bool) (digits : Nat) (exponent : Int) : Binary64 :=
  let point := digitCount digits + exponent
  if digits = 0 then signedZero negative
  else if 310 < point then .infinite negative
  else if point < -330 then signedZero negative
  else
    match exponent with
    | .ofNat e => ofRank negative (nearestRank (digits * Nat.pow 10 e) 1)
    | .negSucc e => ofRank negative (nearestRank digits (Nat.pow 10 (e + 1)))

end Binary64

end TextTidy
