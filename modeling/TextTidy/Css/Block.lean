import TextTidy.Text.Scan

/-!
# Innermost blocks

A block is the text between an opening brace and the next brace, when that one closes it. Rules that
hold other rules are never blocks themselves.
-/

namespace TextTidy.Css

/-- Whether a code point is an opening or a closing brace. -/
def isBrace (c : CodePoint) : Bool := c == .char '{' || c == .char '}'

/-- A pair of braces with no brace between them; the match stands for its interior. -/
def block : Pattern Text
  | _, .char '{', rest =>
    let body := rest.takeWhile (!isBrace ·)
    match rest.dropWhile (!isBrace ·) with
    | .char '}' :: _ => some ⟨body.length + 1, body⟩
    | _ => none
  | _, _, _ => none

/-- The interiors of all innermost blocks, in order. -/
def blocks (css : Text) : List Text := block.findAll css

end TextTidy.Css
