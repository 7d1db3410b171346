import TextTidy.Binary64.Shortest
import TextTidy.Json.Value
import TextTidy.Text.Quoted

/-!
# Writing JSON

Every item and every member stands on a line of its own, indented by its depth. Strings escape what
JSON demands and nothing else.
-/

namespace TextTidy.Json

/-- A code point as it stands in a string. -/
def writeCodePoint : CodePoint → Text
  | .char c =>
    Text.ofString <| match c with
      | '"' => "\\\""
      | '\\' => "\\\\"
      | '\n' => "\\n"
      | '\r' => "\\r"
      | '\t' => "\\t"
      | '\x0c' => "\\f"
      | '\x08' => "\\b"
      | c =>
        if c.toNat < 0x20 then String.ofList ('\\' :: 'u' :: Text.hexDigits 4 c.toNat)
        else String.singleton c
  | c => [c]

/-- A string between its quotes. -/
def writeString (s : Text) : Text := .char '"' :: s.flatMap writeCodePoint ++ [.char '"']

/-- A line break and the spaces that begin the next line. -/
def lineBreak (indent depth : Nat) : Text :=
  .char '\n' :: List.replicate (indent * depth) (.char ' ')

/-- A floating-point number. -/
def writeNumber (x : Binary64) : Text := Text.ofString (x.text "Infinity" "NaN")

mutual

/-- A value that begins at a depth. -/
def write (indent depth : Nat) : Value → Text
  | .null => Text.ofString "null"
  | .bool b => Text.ofString (if b then "true" else "false")
  | .int n => Text.ofString (toString n)
  | .float x => writeNumber x
  | .str s => writeString s
  | .list [] => Text.ofString "[]"
  | .list (item :: others) =>
    .char '[' :: lineBreak indent (depth + 1) ++ write indent (depth + 1) item ++
      writeItems indent (depth + 1) others ++ lineBreak indent depth ++ [.char ']']
  | .obj [] => [.char '{', .char '}']
  | .obj ((key, value) :: others) =>
    .char '{' :: lineBreak indent (depth + 1) ++ writeString key ++ [.char ':', .char ' '] ++
      write indent (depth + 1) value ++ writeMembers indent (depth + 1) others ++
      lineBreak indent depth ++ [.char '}']

/-- The items behind the first one of an array. -/
def writeItems (indent depth : Nat) : List Value → Text
  | [] => []
  | item :: others =>
    .char ',' :: lineBreak indent depth ++ write indent depth item ++ writeItems indent depth others

/-- The members behind the first one of an object. -/
def writeMembers (indent depth : Nat) : List (Text × Value) → Text
  | [] => []
  | (key, value) :: others =>
    .char ',' :: lineBreak indent depth ++ writeString key ++ [.char ':', .char ' '] ++
      write indent depth value ++ writeMembers indent depth others

end

/-- A value laid out with an indent; a negative indent is none. Memory is left out: every indent has
    a layout, also one so wide that no machine could hold the text. -/
def layOut (indent : Int) (value : Value) : Text := write indent.toNat 0 value

end TextTidy.Json
