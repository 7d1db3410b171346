import TextTidy.Text.Split
import TextTidy.Css.Block
import TextTidy.Css.Property

/-!
# Declarations

A declaration is a property name, a colon and a value. This module finds declarations that run into
the next one or into the closing brace without a semicolon, and decides whether the declarations of
a block have the right form.
-/

namespace TextTidy.Css

/-- Whether a code point ends the run of text that a declaration may stand in. -/
def isDelimiter (c : CodePoint) : Bool := c == .char ';' || isBrace c

/-- Whether a property name and its colon come next. -/
def propertyFollows : Text → Bool
  | [] => false
  | c :: rest => isNameChar c && colonFollows (rest.dropWhile isNameChar)

/-- Whether a declaration may end here: blanks and another property follow, or a closing brace. -/
def endsDeclaration : Text → Bool
  | [] => false
  | c :: rest =>
    let next := Text.trimStart (c :: rest)
    (c.isBlank && propertyFollows next) || next.head? == some (.char '}')

/-- The length of the longest value at the start of a text, behind which the declaration may end
    although no semicolon ends it. A value has one character at least. -/
def openValue? : Text → Option Nat
  | [] => none
  | c :: rest =>
    if isDelimiter c then none
    else
      match openValue? rest with
      | some n => some (n + 1)
      | none => if endsDeclaration rest then some 1 else none

/-- A declaration that lacks its semicolon; the match stands for its text. -/
def unterminated : Pattern Text := fun _ c rest =>
  let tail := rest.takeWhile isNameChar
  let behind := rest.dropWhile isNameChar
  if isNameChar c then
    match Text.trimStart behind with
    | .char ':' :: value =>
      (openValue? value).map fun n =>
        let more := tail.length + (Text.leadingBlanks behind).length + 1 + n
        ⟨more, c :: rest.take more⟩
    | _ => none
  else none

/-- Whether some declaration lacks its semicolon. -/
def lacksSemicolon (css : Text) : Bool := unterminated.occursIn css

/-- The text with a semicolon behind every declaration that lacks one. -/
def insertSemicolons (css : Text) : Text :=
  unterminated.replace (fun declaration => declaration ++ [.char ';']) css

/-- The declarations in the interior of a block: the parts between semicolons, blanks at their ends
    and empty parts left out. -/
def declarations (body : Text) : List Text :=
  ((Text.splitOn (.char ';') body).map Text.trim).filter (!·.isEmpty)

/-- Whether a part of a block is no declaration: it has no colon, or only blanks before or behind
    its first one. -/
def malformed (declaration : Text) : Bool :=
  match declaration.dropWhile (· != .char ':') with
  | [] => true
  | _ :: value => Text.isBlank (declaration.takeWhile (· != .char ':')) || Text.isBlank value

/-- Whether all declarations of all innermost blocks have the right form. -/
def wellFormed (css : Text) : Bool :=
  (blocks css).all fun body => (declarations body).all (!malformed ·)

end TextTidy.Css
