import TextTidy.Json.ConstantPlace
import TextTidy.Json.Writer
import TextTidy.Text.Blank
import TextTidy.Text.Position

/-!
# Reports on JSON texts

Reading a text as strict JSON for somebody who wants to know what is wrong with it and where, and
laying it out when nothing is. A byte order mark at the start is passed over but counts as a
character of the text.
-/

namespace TextTidy.Json

/-- What keeps a text from being JSON. -/
inductive Problem where
  | flaw (form : Flaw)
  | constant (word : Constant)
deriving DecidableEq, Repr

/-- The wording of a problem. -/
def Problem.message : Problem → String
  | .flaw form => form.message
  | .constant word => "Unexpected token " ++ word.name

/-- A problem and where it lies. -/
structure Malformation where
  /-- What is wrong. -/
  problem : Problem
  /-- The offset in the text. -/
  position : Nat
  /-- The line and the column of that offset. -/
  place : Text.Place
deriving DecidableEq, Repr

/-- The wording of a malformation. -/
def Malformation.message (m : Malformation) : String :=
  "Invalid JSON at line " ++ toString m.place.line ++ ", column " ++ toString m.place.column ++
    ": " ++ m.problem.message

/-- Why a text has no value. -/
inductive Refusal where
  | empty
  | malformed (m : Malformation)
deriving DecidableEq, Repr

/-- The wording of a refusal. -/
def Refusal.message : Refusal → String
  | empty => "Input is empty. Paste JSON to continue."
  | malformed m => m.message

/-- The text without a byte order mark at its start. -/
def withoutMark (s : Text) : Text :=
  match s with
  | [] => []
  | c :: rest => if c = byteOrderMark then rest else c :: rest

/-- Why reading a text failed: the text is refused, or it exceeds a bound of the reader. -/
inductive ReadError where
  | refused (reason : Refusal)
  | beyond (limit : Limit)
deriving DecidableEq, Repr

/-- The refusal of a text for a problem at an offset. -/
def refusedAt (s : Text) (problem : Problem) (position : Nat) : ReadError :=
  .refused (.malformed ⟨problem, position, s.placeOf position⟩)

/-- The value of a text, or why it has none, where at most `levels` arrays and objects may stand
    inside each other. -/
def parse (levels : Nat) (s : Text) : Except ReadError Value :=
  let body := withoutMark s
  let offset := s.length - body.length
  if body.isBlank then .error (.refused .empty)
  else
    match document .strict levels body with
    | .ok value => .ok value
    | .error (.malformed flaw left) =>
      .error (refusedAt s (.flaw flaw) (offset + (body.length - left.length)))
    | .error (.constant word _) =>
      .error (refusedAt s (.constant word) (offset + constantOffset body))
    | .error (.beyond limit) => .error (.beyond limit)

/-- What a caller learns about a text: whether all is well, a message, the text laid out if that was
    asked for, and the place of a problem. -/
structure Report where
  /-- Whether the text is JSON. -/
  ok : Bool
  /-- What to tell the user. -/
  message : String
  /-- The text laid out, if that was asked for and could be done. -/
  output : Text
  /-- Where the problem lies, if there is one in the text. -/
  place : Option Text.Place
deriving DecidableEq, Repr

/-- The report on a text without a value. -/
def Refusal.report : Refusal → Report
  | empty => ⟨false, empty.message, [], none⟩
  | malformed m => ⟨false, m.message, [], some m.place⟩

/-- The report on a text, where `accept` writes the report on its value. -/
def reportWith (levels : Nat) (accept : Value → Report) (s : Text) : Except Limit Report :=
  match parse levels s with
  | .ok value => .ok (accept value)
  | .error (.refused reason) => .ok reason.report
  | .error (.beyond limit) => .error limit

/-- Lays a text out with an indent. -/
def format (levels : Nat) (indent : Int) : Text → Except Limit Report :=
  reportWith levels fun value => ⟨true, "JSON formatted successfully.", layOut indent value, none⟩

/-- Checks that a text is JSON. -/
def validate (levels : Nat) : Text → Except Limit Report :=
  reportWith levels fun _ => ⟨true, "JSON is valid.", [], none⟩

end TextTidy.Json
