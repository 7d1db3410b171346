import TextTidy.Text.Blank
import TextTidy.Text.Scan

/-!
# Compacting a stylesheet

White space and punctuation are brought to their shortest form in five passes.
Comments are ordinary text here.
-/

namespace TextTidy.Css

/-- The punctuation that needs no blanks around it. -/
def isTight (c : CodePoint) : Bool :=
  ['{', '}', ':', ';', ',', '>', '+', '~'].any fun mark => c == .char mark

/-- The mark that lets a declaration win over others. -/
def importantMark : Text := Text.ofString "!important"

/-- A run of blanks. -/
def blankRun : Pattern Unit := fun _ c rest =>
  if c.isBlank then some ⟨(Text.leadingBlanks rest).length, ()⟩ else none

/-- A tight mark with the blanks around it; the match stands for the mark. -/
def spacedMark : Pattern CodePoint := fun _ c rest =>
  let lead := Text.leadingBlanks (c :: rest)
  match Text.trimStart (c :: rest) with
  | [] => none
  | mark :: behind =>
    if isTight mark then some ⟨lead.length + (Text.leadingBlanks behind).length, mark⟩ else none

/-- A semicolon right before a closing brace. -/
def idleSemicolon : Pattern Unit
  | _, .char ';', .char '}' :: _ => some ⟨1, ()⟩
  | _, _, _ => none

/-- The important mark with the blanks before it. -/
def spacedImportant : Pattern Unit := fun _ c rest =>
  let lead := Text.leadingBlanks (c :: rest)
  if Text.startsWith (Text.trimStart (c :: rest)) importantMark then
    some ⟨lead.length + importantMark.length - 1, ()⟩
  else none

/-- Every run of blanks as one space. -/
def collapseBlanks (css : Text) : Text := blankRun.replace (fun _ => [.char ' ']) css

/-- No blanks around tight marks. -/
def tightenMarks (css : Text) : Text := spacedMark.replace (fun mark => [mark]) css

/-- No semicolon right before a closing brace. -/
def dropIdleSemicolons (css : Text) : Text := idleSemicolon.replace (fun _ => [.char '}']) css

/-- No blanks before an important mark. -/
def joinImportant (css : Text) : Text := spacedImportant.replace (fun _ => importantMark) css

/-- The stylesheet in its compact form. -/
def compact (css : Text) : Text :=
  (joinImportant (dropIdleSemicolons (tightenMarks (collapseBlanks css)))).trim

end TextTidy.Css
