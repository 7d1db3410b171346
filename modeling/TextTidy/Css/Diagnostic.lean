import TextTidy.UnknownName

/-!
# Diagnostics

What a validation rule has to say about a stylesheet.
-/

namespace TextTidy.Css

/-- How serious a finding is. Only errors make a stylesheet invalid. -/
inductive Severity where
  | error
  | warning
deriving DecidableEq, Repr

namespace Severity

/-- All severities. -/
def all : List Severity := [error, warning]

/-- The name of a severity. -/
def name : Severity → String
  | error => "ERROR"
  | warning => "WARNING"

/-- The severity of a name. -/
def named (name : String) : Except UnknownName Severity :=
  match all.find? (·.name == name) with
  | some severity => .ok severity
  | none => .error ⟨name, "Severity"⟩

end Severity

/-- A finding about a stylesheet. -/
structure Diagnostic where
  /-- The name of the rule that made the finding. -/
  rule : String
  /-- How serious the finding is. -/
  severity : Severity
  /-- The wording of the finding. -/
  message : String
deriving DecidableEq, Repr

namespace Diagnostic

/-- Whether the finding makes the stylesheet invalid. -/
def isError (d : Diagnostic) : Bool := d.severity == .error

/-- Whether the finding is advice only. -/
def isWarning (d : Diagnostic) : Bool := d.severity == .warning

/-- The finding on one line. -/
def line (d : Diagnostic) : String := d.severity.name ++ ": " ++ d.message

end Diagnostic

/-- The wordings of the errors among the findings. -/
def errorMessages (diagnostics : List Diagnostic) : List String :=
  (diagnostics.filter Diagnostic.isError).map Diagnostic.message

/-- The wordings of the warnings among the findings. -/
def warningMessages (diagnostics : List Diagnostic) : List String :=
  (diagnostics.filter Diagnostic.isWarning).map Diagnostic.message

end TextTidy.Css
