import TextTidy.Text.Scan

/-!
# Comments

A comment opens with a slash and a star and runs to the first star and slash at least two characters
later. Comments do not nest, and one that never closes is ordinary text.
-/

namespace TextTidy.Css

/-- The number of characters up to the first end of a comment, that end included. -/
def commentEnd? : Text → Option Nat
  | [] => none
  | .char '*' :: .char '/' :: _ => some 2
  | _ :: rest => (commentEnd? rest).map (· + 1)

/-- A complete comment. -/
def comment : Pattern Unit
  | _, .char '/', .char '*' :: body => (commentEnd? body).map fun n => ⟨n + 1, ()⟩
  | _, _, _ => none

/-- The stylesheet without its complete comments. -/
def stripComments (css : Text) : Text := comment.replace (fun _ => []) css

end TextTidy.Css
