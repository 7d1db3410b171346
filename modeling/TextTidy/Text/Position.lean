import TextTidy.Text.Split

/-!
# Places in a text

A place is an offset, or a line and a column, both counted from one. Only a line feed ends a line.
-/

namespace TextTidy.Text

/-- The text before an offset. A negative offset counts from the end; beyond either end there is
    nothing more. -/
def upTo (s : Text) : (offset : Int) → Text
  | .ofNat n => s.take n
  | .negSucc n => s.take (s.length - (n + 1))

/-- A line and a column. -/
structure Place where
  /-- The line, the first one being 1. -/
  line : Nat
  /-- The column, the first one being 1. -/
  column : Nat
deriving DecidableEq, Repr

/-- The line and the column of an offset. -/
def placeOf (s : Text) (offset : Int) : Place :=
  let lines := splitOn (.char '\n') (s.upTo offset)
  ⟨lines.length, (lines.getLastD []).length + 1⟩

end TextTidy.Text
