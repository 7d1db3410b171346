import TextTidy.Binary64.Shortest
import TextTidy.Json.Value
import TextTidy.Log
import TextTidy.Text.Quoted
import TextTidy.Text.UpperCase

/-!
# Settings

What a user may choose: how far JSON is indented, where the server listens, and what is logged.
Settings exist only with an indent within the bounds and the name of a log level. No more than that
is asked of the indent: it may be a truth value, or a number with a fraction.
-/

namespace TextTidy

/-- The widest indent of JSON output. -/
def maxIndent : Nat := 16

/-- An indent that is permitted. -/
abbrev Indent : Type := Fin (maxIndent + 1)

/-- The permitted indent of a number, if it is one. -/
def Indent.ofInt? (n : Int) : Option Indent :=
  if h : 0 ≤ n ∧ n ≤ maxIndent then some ⟨n.toNat, by omega⟩ else none

/-- The log level of a name in any letter case. -/
def LogLevel.ofAnyCase? (name : String) : Option LogLevel := LogLevel.ofName? (Text.upper name)

/-- Why settings are refused. -/
inductive SettingsError where
  | indent (given : String)
  | incomparable (kind : String)
  | level (given : String)
deriving DecidableEq, Repr

/-- The wording of a refusal. -/
def SettingsError.message : SettingsError → String
  | indent given => "json_indent must be 0.." ++ toString maxIndent ++ ", got " ++ given
  | incomparable kind => "'<=' not supported between instances of 'int' and '" ++ kind ++ "'"
  | level given => "Unknown log level: " ++ Text.quoted given

/-- What keeps a value from being set as the indent. Truth values count as zero and one, and so are
    within the bounds; what is no number cannot be compared with them. -/
def indentError? : Json.Value → Option SettingsError
  | .bool _ => none
  | .int n => if 0 ≤ n ∧ n ≤ maxIndent then none else some (.indent (toString n))
  | .float x => if x.isWithin maxIndent then none else some (.indent (x.text "inf" "nan"))
  | .null => some (.incomparable "NoneType")
  | .str _ => some (.incomparable "str")
  | .list _ => some (.incomparable "list")
  | .obj _ => some (.incomparable "dict")

/-- An integer is within the bounds exactly if it is a permitted indent. -/
theorem indentError?_int_eq_none_iff {n : Int} :
    indentError? (.int n) = none ↔ 0 ≤ n ∧ n ≤ maxIndent := by
  simp [indentError?]

/-- The settings of the program. The indent and the name of the log level are kept as they were
    given. -/
structure Settings where
  /-- How far JSON is indented when nothing else is asked for. -/
  indent : Json.Value
  /-- The address that the server listens on. -/
  host : String
  /-- The number of the endpoint that the server listens at. -/
  tcpPort : Int
  /-- The name of the log level, as it was given. -/
  levelName : String
  /-- The indent is within the bounds. -/
  indent_within : indentError? indent = none
  /-- The name is that of a log level. -/
  level_known : (LogLevel.ofAnyCase? levelName).isSome

namespace Settings

/-- The log level. -/
def level (s : Settings) : LogLevel := (LogLevel.ofAnyCase? s.levelName).get s.level_known

/-- The indent of JSON when none is chosen. -/
def defaultIndent : Indent := 2

/-- The address that the server listens on when none is chosen. -/
def defaultHost : String := "127.0.0.1"

/-- The number of the endpoint that the server listens at when none is chosen. -/
def defaultTcpPort : Int := 5000

/-- The log level when none is chosen. -/
def defaultLevel : LogLevel := .warning

/-- Settings of the given values, unless one of them is refused; the indent is looked at first. -/
def make (indent : Json.Value) (host : String) (tcpPort : Int) (levelName : String) :
    Except SettingsError Settings :=
  match hindent : indentError? indent with
  | some e => .error e
  | none =>
    if hlevel : (LogLevel.ofAnyCase? levelName).isSome then
      .ok ⟨indent, host, tcpPort, levelName, hindent, hlevel⟩
    else .error (.level levelName)

/-- Settings of permitted values. -/
def ofLevel (indent : Indent) (host : String) (tcpPort : Int) (level : LogLevel) : Settings :=
  ⟨.int indent.val, host, tcpPort, level.name,
    indentError?_int_eq_none_iff.mpr (by omega), by cases level <;> decide⟩

/-- The settings when nothing is chosen. -/
def standard : Settings :=
  ofLevel defaultIndent defaultHost defaultTcpPort defaultLevel

end Settings

end TextTidy
