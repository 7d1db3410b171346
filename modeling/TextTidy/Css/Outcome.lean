import TextTidy.CodePoint
import TextTidy.UnknownName

/-!
# Outcomes

What a caller learns about one stylesheet: how it ended, the compact text if there is one, and what
was repaired or found wrong.
-/

namespace TextTidy.Css

/-- How the work on a stylesheet can end. -/
inductive OutcomeKind where
  | emptyInput
  | minified
  | correctedAndMinified
  | rejected
deriving DecidableEq, Repr

namespace OutcomeKind

/-- All kinds. -/
def all : List OutcomeKind := [emptyInput, minified, correctedAndMinified, rejected]

/-- The name of a kind. -/
def name : OutcomeKind → String
  | emptyInput => "empty_input"
  | minified => "minified"
  | correctedAndMinified => "corrected_and_minified"
  | rejected => "rejected"

/-- The kind of a name. -/
def named (name : String) : Except UnknownName OutcomeKind :=
  match all.find? (·.name == name) with
  | some kind => .ok kind
  | none => .error ⟨name, "OutcomeKind"⟩

end OutcomeKind

/-- How a status is to be presented. -/
inductive StatusLevel where
  | success
  | warning
  | error
deriving DecidableEq, Repr

/-- The name of a status level. -/
def StatusLevel.name : StatusLevel → String
  | success => "success"
  | warning => "warning"
  | error => "error"

/-- The result of the work on a stylesheet. -/
structure Outcome where
  /-- How the work ended. -/
  kind : OutcomeKind
  /-- The compact stylesheet; empty unless the work succeeded. -/
  output : Text
  /-- The repairs that were made. -/
  fixLog : List String
  /-- The warnings about the stylesheet that was compacted. -/
  warnings : List String
  /-- The errors that made the stylesheet unfit. -/
  errors : List String
deriving DecidableEq, Repr

namespace Outcome

/-- The outcome of a kind with nothing to report. -/
def ofKind (kind : OutcomeKind) : Outcome := ⟨kind, [], [], [], []⟩

/-- Whether there is a compact stylesheet. -/
def succeeded (o : Outcome) : Bool := o.kind == .minified || o.kind == .correctedAndMinified

/-- How to present the status. -/
def level (o : Outcome) : StatusLevel :=
  match o.kind with
  | .minified => .success
  | .correctedAndMinified => .warning
  | .emptyInput | .rejected => .error

/-- The status of a compact stylesheet. -/
def minifiedStatus : String := "CSS validated and minified"

/-- The status text. After a correction it lists the repairs. -/
def status (o : Outcome) : String :=
  match o.kind with
  | .emptyInput => "Please enter CSS input first."
  | .rejected => "Invalid CSS structure detected"
  | .minified => minifiedStatus
  | .correctedAndMinified =>
    let repairs := if o.fixLog.isEmpty then ["Auto-correction applied"] else o.fixLog
    String.intercalate " | " (repairs ++ [minifiedStatus])

end Outcome

end TextTidy.Css
