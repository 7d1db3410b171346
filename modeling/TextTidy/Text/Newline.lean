import TextTidy.CodePoint

/-!
# Line ends

A file may end its lines with a line feed, a carriage return, or both; once read, its text has line
feeds only.
-/

namespace TextTidy.Text

/-- The text with a line feed for every line end. -/
def unifyLineEnds : Text → Text
  | [] => []
  | .char '\r' :: .char '\n' :: rest => .char '\n' :: unifyLineEnds rest
  | .char '\r' :: rest => .char '\n' :: unifyLineEnds rest
  | c :: rest => c :: unifyLineEnds rest

end TextTidy.Text
