import TextTidy.Text.Scan

/-!
# Terminal escapes

Control sequences that colour text or move the cursor of a terminal: an escape character and a
bracket, parameter characters, intermediate ones, and a final one.
-/

namespace TextTidy.Text

/-- Whether the number of a code point lies between two others, ends included. -/
def isBetween (low high : Nat) (c : CodePoint) : Bool := low ≤ c.value && c.value ≤ high

/-- A complete control sequence. -/
def terminalEscape : Pattern Unit
  | _, .char '\x1b', .char '[' :: rest =>
    let parameters := rest.takeWhile (isBetween 0x30 0x3F)
    let behind := rest.dropWhile (isBetween 0x30 0x3F)
    let intermediates := behind.takeWhile (isBetween 0x20 0x2F)
    match behind.dropWhile (isBetween 0x20 0x2F) with
    | final :: _ =>
      if isBetween 0x40 0x7E final then
        some ⟨1 + parameters.length + intermediates.length + 1, ()⟩
      else none
    | [] => none
  | _, _, _ => none

/-- The text without control sequences. -/
def dropEscapes (s : Text) : Text := terminalEscape.replace (fun _ => []) s

/-- The string without control sequences. -/
def plain (s : String) : String :=
  String.ofList ((dropEscapes (ofString s)).filterMap CodePoint.char?)

end TextTidy.Text
