import TextTidy.CodePoint

/-!
# Blanks

The characters that count as white space in a text, and what to do with them at its ends.
-/

namespace TextTidy

/-- The ranges of white space: the controls that move the cursor or separate records, and the spaces
    and separators of Unicode. -/
def blankRanges : List (Nat × Nat) :=
  [(0x09, 0x0D), (0x1C, 0x20), (0x85, 0x85), (0xA0, 0xA0), (0x1680, 0x1680), (0x2000, 0x200A),
    (0x2028, 0x2029), (0x202F, 0x202F), (0x205F, 0x205F), (0x3000, 0x3000)]

/-- Whether a code point is white space. -/
def CodePoint.isBlank (c : CodePoint) : Bool := c.within blankRanges

namespace Text

/-- Whether a text holds white space only. -/
def isBlank (s : Text) : Bool := s.all CodePoint.isBlank

/-- The white space at the start of a text. -/
def leadingBlanks (s : Text) : Text := s.takeWhile CodePoint.isBlank

/-- A text without the white space at its start. -/
def trimStart (s : Text) : Text := s.dropWhile CodePoint.isBlank

/-- A text without the white space at its end. -/
def trimEnd (s : Text) : Text := (trimStart s.reverse).reverse

/-- A text without the white space at its ends. -/
def trim (s : Text) : Text := trimEnd (trimStart s)

theorem leadingBlanks_append_trimStart (s : Text) : leadingBlanks s ++ trimStart s = s :=
  List.takeWhile_append_dropWhile

end Text

end TextTidy
