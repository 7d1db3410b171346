import TextTidy.Css.Brace
import TextTidy.Css.Declaration
import TextTidy.Css.Diagnostic

/-!
# Validation

The rules that a stylesheet without comments is held to, and the verdict they give together. The
rules read the text flat, without parsing it, and no rule keeps another from speaking.
-/

namespace TextTidy.Css

/-- A validation rule. -/
structure Rule where
  /-- The name that its findings carry. -/
  name : String
  /-- What it finds in a stylesheet. -/
  check : Text → List Diagnostic

namespace Rule

/-- A rule that makes one finding, of its own name, when its condition holds. -/
def reporting (name : String) (severity : Severity) (message : String) (holds : Text → Bool) :
    Rule :=
  ⟨name, fun css => if holds css then [⟨name, severity, message⟩] else []⟩

/-- Every brace has its partner. -/
def braceBalance : Rule :=
  reporting "check_brace_balance" .error "Unmatched bracket detected." fun css =>
    !(balance css).balanced

/-- Every declaration is ended before the next property or the closing brace. -/
def missingSemicolon : Rule :=
  reporting "check_missing_semicolon" .error "Missing semicolon before \x7d detected."
    lacksSemicolon

/-- No property name is a known misspelling. This rule only warns, once for each occurrence. -/
def propertyTypos : Rule :=
  ⟨"check_property_typos", fun css =>
    (typos css).map fun entry =>
      ⟨"check_property_typos", .warning,
        "Property typo found: \"" ++ entry.wrong ++ "\" -> \"" ++ entry.right ++ "\""⟩⟩

/-- Every declaration of an innermost block has a name, a colon and a value. -/
def declarationFormat : Rule :=
  reporting "check_declaration_format" .error "Invalid CSS property format detected." fun css =>
    !wellFormed css

/-- The rules that every stylesheet is held to, in the order in which findings are reported. -/
def builtIn : List Rule := [braceBalance, missingSemicolon, propertyTypos, declarationFormat]

end Rule

/-- The verdict of a validation. -/
structure Validation where
  /-- All findings, in the order of the rules. -/
  diagnostics : List Diagnostic
deriving DecidableEq, Repr

namespace Validation

/-- A stylesheet is valid when no finding is an error. -/
def isValid (v : Validation) : Bool := !v.diagnostics.any Diagnostic.isError

/-- The wordings of the errors. -/
def errors (v : Validation) : List String := errorMessages v.diagnostics

/-- The wordings of the warnings. -/
def warnings (v : Validation) : List String := warningMessages v.diagnostics

end Validation

/-- The verdict of the built-in rules and then of further ones. -/
def validateWith (further : List Rule) (css : Text) : Validation :=
  ⟨(Rule.builtIn ++ further).flatMap (·.check css)⟩

/-- The verdict of the built-in rules. -/
def validate (css : Text) : Validation := validateWith [] css

/-- The error of a stylesheet that is not sound, with the findings that say why. -/
structure Unsound where
  diagnostics : List Diagnostic
deriving DecidableEq, Repr

namespace Unsound

/-- The wordings of the errors among the findings. -/
def errors (e : Unsound) : List String := errorMessages e.diagnostics

/-- The wording of the error itself. -/
def message (e : Unsound) : String :=
  "Invalid CSS structure: " ++ toString e.errors.length ++ " error(s): " ++
    String.intercalate "; " e.errors

end Unsound

/-- The warnings about a valid stylesheet, or the errors of an invalid one. -/
def requireValid (further : List Rule) (css : Text) : Except Unsound (List Diagnostic) :=
  let verdict := validateWith further css
  if verdict.isValid then .ok verdict.diagnostics
  else .error ⟨verdict.diagnostics.filter Diagnostic.isError⟩

end TextTidy.Css
