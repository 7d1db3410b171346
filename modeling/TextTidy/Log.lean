/-!
# Log records

What the program tells about its own work, beside the results it returns.
-/

namespace TextTidy

/-- How much a log record matters. -/
inductive LogLevel where
  | debug
  | info
  | warning
  | error
  | critical
deriving DecidableEq, Repr

namespace LogLevel

/-- All levels, the least important first. -/
def all : List LogLevel := [debug, info, warning, error, critical]

/-- The name of a level. -/
def name : LogLevel → String
  | debug => "DEBUG"
  | info => "INFO"
  | warning => "WARNING"
  | error => "ERROR"
  | critical => "CRITICAL"

/-- The place of a level among all, from the least important on. -/
def rank : LogLevel → Nat
  | debug => 0
  | info => 1
  | warning => 2
  | error => 3
  | critical => 4

/-- The level of a name. -/
def ofName? (name : String) : Option LogLevel := all.find? (·.name == name)

end LogLevel

/-- A log record. -/
structure LogRecord where
  /-- How much it matters. -/
  level : LogLevel
  /-- The part of the program that wrote it. -/
  source : String
  /-- Its wording. -/
  message : String
deriving DecidableEq, Repr

/-- A record on one line. -/
def LogRecord.line (r : LogRecord) : String := r.level.name ++ " " ++ r.source ++ ": " ++ r.message

/-- Whether a record is important enough to be shown from the given level on. -/
def LogRecord.shownFrom (threshold : LogLevel) (r : LogRecord) : Bool :=
  threshold.rank ≤ r.level.rank

end TextTidy
