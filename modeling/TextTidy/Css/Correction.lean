import TextTidy.Css.Brace
import TextTidy.Css.Declaration

/-!
# Correction

The repairs that are safe to make without asking, each made once and in a fixed order: missing
semicolons, misspelt property names, blocks left open at the end. Everything else is left alone.
-/

namespace TextTidy.Css

/-- One kind of repair that was made. -/
inductive Fix where
  | semicolon
  | spelling (entry : Misspelling)
  | openBlocks
deriving DecidableEq, Repr

/-- The wording of a repair. -/
def Fix.message : Fix → String
  | semicolon => "Auto-corrected missing semicolon before \x7d"
  | spelling entry => "Corrected spelling: " ++ entry.wrong ++ " -> " ++ entry.right
  | openBlocks => "Auto-closed unclosed block at end of file"

/-- The result of a correction. -/
structure Correction where
  /-- The corrected text. -/
  text : Text
  /-- The wordings of the repairs that were made, in order. -/
  fixes : List String
deriving DecidableEq, Repr

/-- Whether anything was repaired. -/
def Correction.changed (c : Correction) : Bool := !c.fixes.isEmpty

/-- Whether blocks are open at the end of a text and it is plain which ones: a closing brace that
    had nothing to close makes it impossible to tell. -/
def closable (css : Text) : Bool := !(balance css).extra && (balance css).missing != 0

/-- The text with its open blocks closed at the end, where that is possible. -/
def closeBlocks (css : Text) : Text :=
  if closable css then css ++ List.replicate (balance css).missing (.char '}') else css

/-- The text with all safe repairs made. -/
def corrected (css : Text) : Text := closeBlocks (correctSpelling (insertSemicolons css))

/-- The repairs that `corrected` makes, in order. -/
def fixes (css : Text) : List Fix :=
  let ended := insertSemicolons css
  let spelt := correctSpelling ended
  (if ended = css then [] else [.semicolon]) ++ (respelled ended).map .spelling ++
    (if closable spelt then [.openBlocks] else [])

/-- The correction of a text. -/
def correct (css : Text) : Correction := ⟨corrected css, (fixes css).map Fix.message⟩

end TextTidy.Css
