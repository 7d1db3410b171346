import TextTidy.CodePoint

/-!
# Scanning a text for a pattern

A scan goes through a text from left to right. Where the pattern matches, the match becomes one
piece and the scan goes on behind it; every other character is a piece of its own. Finding all
matches and replacing them are two views of the same pieces, so they agree on what was found.
-/

namespace TextTidy

/-- What a pattern takes. -/
structure Taken (α : Type) where
  /-- How many characters belong to the match after the first. -/
  more : Nat
  /-- What the match stands for. -/
  value : α

/-- A pattern decides whether a match begins at a character, given the character before it (if any),
    the character itself and the text behind it. A match always takes the first character. -/
abbrev Pattern (α : Type) :=
  (before : Option CodePoint) → (first : CodePoint) → (rest : Text) → Option (Taken α)

/-- A piece of a scanned text: a character outside all matches, or a match. -/
inductive Piece (α : Type) where
  | plain (c : CodePoint)
  | found (value : α)

namespace Piece

/-- What the match stands for, if the piece is one. -/
def found? {α : Type} : Piece α → Option α
  | plain _ => none
  | found value => some value

/-- The text of a piece when matches are written by `write`. -/
def text {α : Type} (write : α → Text) : Piece α → Text
  | plain c => [c]
  | found value => write value

end Piece

namespace Pattern

variable {α : Type}

/-- The pieces of a text, where `skip` characters still belong to the match before them. -/
def piecesFrom (p : Pattern α) : (before : Option CodePoint) → (skip : Nat) → Text → List (Piece α)
  | _, _, [] => []
  | _, skip + 1, c :: rest => piecesFrom p (some c) skip rest
  | before, 0, c :: rest =>
    match p before c rest with
    | some taken => .found taken.value :: piecesFrom p (some c) taken.more rest
    | none => .plain c :: piecesFrom p (some c) 0 rest

/-- The pieces of a whole text. -/
def pieces (p : Pattern α) (s : Text) : List (Piece α) := piecesFrom p none 0 s

/-- All matches, from left to right. -/
def findAll (p : Pattern α) (s : Text) : List α := (pieces p s).filterMap Piece.found?

/-- Whether there is a match. -/
def occursIn (p : Pattern α) (s : Text) : Bool := !(findAll p s).isEmpty

/-- The text with every match written by `write`. -/
def replace (p : Pattern α) (write : α → Text) (s : Text) : Text :=
  (pieces p s).flatMap (Piece.text write)

/-- The last character of a text, or the one before the text if it is empty, is found in the same way
    behind its first character. -/
theorem getLast?_cons_or (c : CodePoint) (s : Text) (before : Option CodePoint) :
    (c :: s).getLast?.or before = s.getLast?.or (some c) := by
  rw [List.getLast?_cons, Option.some_or, Option.or_some]

/-- The characters of the match before are passed over. -/
theorem piecesFrom_skip (p : Pattern α) (before : Option CodePoint) (matched rest : Text) :
    piecesFrom p before matched.length (matched ++ rest) =
      piecesFrom p (matched.getLast?.or before) 0 rest := by
  induction matched generalizing before with
  | nil => rfl
  | cons c matched ih =>
    rw [List.length_cons, List.cons_append, piecesFrom, ih, getLast?_cons_or]

end Pattern

end TextTidy
