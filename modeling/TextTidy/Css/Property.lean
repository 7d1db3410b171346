import TextTidy.Text.Blank
import TextTidy.Text.Scan

/-!
# Property names

What a property name looks like, the table of known misspellings, and the two ways to look for them:
`typos` reads whole names in property position, `misspelled` finds the words themselves.
-/

namespace TextTidy.Css

/-- Whether a code point may stand in a property name: an ASCII letter or a hyphen. -/
def isNameChar : CodePoint → Bool
  | .char c => c.isAlpha || c == '-'
  | .surrogate _ => false

/-- Whether a code point belongs to a word: an ASCII letter, a digit or an underscore. -/
def isWordChar : CodePoint → Bool
  | .char c => c.isAlphanum || c == '_'
  | .surrogate _ => false

/-- Whether a word begins or ends between a character and the one before it. -/
def atWordEdge (before : Option CodePoint) (c : CodePoint) : Bool :=
  before.any isWordChar != isWordChar c

/-- Whether a colon comes next, blanks aside. -/
def colonFollows (s : Text) : Bool :=
  match s.trimStart with
  | .char ':' :: _ => true
  | _ => false

/-- An entry in the table of misspellings. -/
structure Misspelling where
  /-- The misspelt property name. -/
  wrong : String
  /-- The name that was meant. -/
  right : String
deriving DecidableEq, Repr

/-- The misspellings that are safe to correct. -/
def misspellings : List Misspelling :=
  [⟨"backgroung", "background"⟩, ⟨"colr", "color"⟩, ⟨"widht", "width"⟩, ⟨"heigth", "height"⟩]

/-- The entry of the table for a name. -/
def misspelling? (name : Text) : Option Misspelling :=
  misspellings.find? fun entry => Text.ofString entry.wrong == name

/-- A name in property position: it begins at a word edge and a colon follows it. The match reaches
    to that colon and stands for the name. -/
def propertyName : Pattern Text := fun before c rest =>
  let tail := rest.takeWhile isNameChar
  let behind := rest.dropWhile isNameChar
  if isNameChar c && atWordEdge before c && colonFollows behind then
    some ⟨tail.length + (Text.leadingBlanks behind).length + 1, c :: tail⟩
  else none

/-- The misspellings among the names in property position, one for each occurrence. -/
def typos (css : Text) : List Misspelling := (propertyName.findAll css).filterMap misspelling?

/-- A misspelt word before a colon. It begins at a word edge, and the blank or colon behind it ends
    it. -/
def misspelled : Pattern Misspelling := fun before c rest =>
  if atWordEdge before c then
    misspellings.findSome? fun entry =>
      match Text.dropStart? entry.wrong.toList (c :: rest) with
      | some behind =>
        if colonFollows behind then some ⟨entry.wrong.length - 1, entry⟩ else none
      | none => none
  else none

/-- The misspelt words that a correction replaces, in order. -/
def respelled (css : Text) : List Misspelling := misspelled.findAll css

/-- The text with every misspelt word replaced. -/
def correctSpelling (css : Text) : Text :=
  misspelled.replace (fun entry => Text.ofString entry.right) css

end TextTidy.Css
