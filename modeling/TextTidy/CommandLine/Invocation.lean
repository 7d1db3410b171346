import TextTidy.CommandLine.Options
import TextTidy.Settings
import TextTidy.Text.Integer

/-!
# Invocations

What the arguments of a run ask for. The commands and their options are the program's own. It is
assumed of the library that reads them that options of the whole program stand before the command
and options of a command behind it, that asking for help or for the version ends the reading at the
level where it is asked, once all options of that level are understood, and that values are looked
at before anything is done. What is proved of runs speaks of arguments by what they are read as.
-/

namespace TextTidy.CommandLine

/-- Why arguments cannot be understood. -/
inductive UsageError where
  | option (e : OptionError)
  | noCommand
  | unknownCommand (name : String)
  | extraArgument (argument : String)
  | badValue (name given : String)
  | unreadableInput (name : String)
  | directoryOutput (name : String)
deriving DecidableEq, Repr

/-- The wording of an error in the arguments. -/
def UsageError.message : UsageError → String
  | .option (.unknown argument) => "No such option: " ++ argument
  | .option (.lacksValue name) => "Option " ++ name ++ " requires a value."
  | .option (.takesNoValue name) => "Option " ++ name ++ " does not take a value."
  | .noCommand => "Missing command."
  | .unknownCommand name => "No such command: " ++ name
  | .extraArgument argument => "Unexpected extra argument: " ++ argument
  | .badValue name given => "Invalid value for " ++ name ++ ": " ++ given
  | .unreadableInput name => "Cannot read the input file: " ++ name
  | .directoryOutput name => "The output file is a directory: " ++ name

/-- The name that stands for standard input. -/
def standardInput : String := "-"

/-- What a run can be asked to do. An input is a file name; an output is one too, and without an
    output the result goes to standard output. -/
inductive Command where
  | minify (input : String) (output : Option String)
  | check (input : String)
  | formatJson (input : String) (indent : Option Indent) (output : Option String)
  | validateJson (input : String)
  | serve (host : String) (tcpPort : Int) (indent : Indent) (debug : Bool)
deriving DecidableEq, Repr

/-- The input of a command, if it has one. -/
def Command.input? : Command → Option String
  | minify input _ => some input
  | check input => some input
  | formatJson input _ _ => some input
  | validateJson input => some input
  | serve _ _ _ _ => none

/-- What can be asked for. -/
inductive Request where
  | version
  | help
  | command (command : Command)
deriving DecidableEq, Repr

/-- What the arguments of a run ask for. -/
structure Invocation where
  /-- The level from which on the log is shown. -/
  level : LogLevel
  /-- What is to be done. -/
  request : Request
deriving DecidableEq, Repr

/-! ## Options -/

/-- The options of the whole program and of all commands. -/
inductive Opt where
  | help
  | version
  | logLevel
  | output
  | indent
  | host
  | tcpPort
  | debug
  | noDebug
deriving DecidableEq, Repr

/-- Asks for help; every level has it. -/
def helpForm : OptionForm Opt := .flag .help "--help"

/-- Names a file for the result. -/
def outputForm : OptionForm Opt := .valued .output "--output" (some 'o')

/-- Sets the indent of JSON. -/
def indentForm : OptionForm Opt := .valued .indent "--indent" none

/-- Sets the number of the endpoint that the server listens at. -/
def tcpPortForm : OptionForm Opt := .valued .tcpPort "--port" none

/-- The options before the command. -/
def programForms : List (OptionForm Opt) :=
  [helpForm, .flag .version "--version", .valued .logLevel "--log-level" none]

/-- The options of the server. -/
def serverForms : List (OptionForm Opt) :=
  [helpForm, .valued .host "--host" none, tcpPortForm, indentForm,
    .flag .debug "--debug", .flag .noDebug "--no-debug"]

/-- What an option asks for at once, whatever else is given. -/
def atOnce? : Opt → Option Request
  | .help => some .help
  | .version => some .version
  | _ => none

/-- What the first option of that kind asks for. -/
def immediate? (found : Found Opt) : Option Request := found.options.findSome? (atOnce? ·.1)

/-! ## Values -/

/-- The integer that an option is given, if it is. -/
def integerValue? (found : Found Opt) (form : OptionForm Opt) : Except UsageError (Option Int) :=
  match found.value? form.option with
  | none => .ok none
  | some given =>
    match Text.integer? given with
    | some n => .ok (some n)
    | none => .error (.badValue form.name given)

/-- The indent that is given, if one is. -/
def indentValue? (found : Found Opt) : Except UsageError (Option Indent) := do
  match ← integerValue? found indentForm with
  | none => return none
  | some n =>
    match Indent.ofInt? n with
    | some indent => return some indent
    | none => throw (.badValue indentForm.name (toString n))

/-- The log levels that may be chosen. -/
def selectableLevels : List LogLevel := [.debug, .info, .warning, .error]

/-- The log level that is given in any letter case, or the usual one. -/
def levelValue (found : Found Opt) : Except UsageError LogLevel :=
  match found.value? .logLevel with
  | none => .ok Settings.defaultLevel
  | some given =>
    match selectableLevels.find? (·.name == given.map Char.toUpper) with
    | some level => .ok level
    | none => .error (.badValue "--log-level" given)

/-- Whether debugging is asked for; the last word counts. -/
def debugValue (found : Found Opt) : Bool :=
  (found.options.reverse.find? fun (option, _) => option = .debug || option = .noDebug).any
    fun (option, _) => option = .debug

/-- The input, of which there may be one among the other arguments; standard input otherwise. -/
def inputArgument (found : Found Opt) : Except UsageError String :=
  match found.others with
  | [] => .ok standardInput
  | [input] => .ok input
  | _ :: extra :: _ => .error (.extraArgument extra)

/-- The output, if one is named; an empty name counts as none. -/
def outputValue? (found : Found Opt) : Option String :=
  (found.value? .output).filter (!·.isEmpty)

/-! ## Commands -/

/-- Reads options up to the command behind them, or what one of them asks for at once. -/
def readOptions (forms : List (OptionForm Opt)) (mixed : Bool) (arguments : List String) :
    Except UsageError (Request ⊕ Found Opt) :=
  match findOptions forms mixed arguments with
  | .error e => .error (.option e)
  | .ok found =>
    match immediate? found with
    | some request => .ok (.inl request)
    | none => .ok (.inr found)

/-- Reads the options and the input of a command. -/
def readCommand (forms : List (OptionForm Opt)) (read : Found Opt → Except UsageError Command)
    (arguments : List String) : Except UsageError Request := do
  match ← readOptions forms true arguments with
  | .inl request => return request
  | .inr found => return .command (← read found)

/-- Reads the options of a group of commands and then the command. A name that is no command can
    still be an option of the group, kept from its place by two hyphens before it. -/
def readGroup {α : Type} (forms : List (OptionForm Opt)) (read : Found Opt → Except UsageError α)
    (command? : String → Option (List String → Except UsageError Request))
    (arguments : List String) : Except UsageError (Option α × Request) := do
  match ← readOptions forms false arguments with
  | .inl request => return (none, request)
  | .inr found =>
    let common ← read found
    match found.others with
    | [] => throw .noCommand
    | name :: rest =>
      match command? name with
      | some readRest => return (some common, ← readRest rest)
      | none =>
        match ← readOptions forms false (name :: rest) with
        | .inl request => return (some common, request)
        | .inr _ => throw (.unknownCommand name)

/-- The command that compacts a stylesheet. -/
def readMinify : List String → Except UsageError Request :=
  readCommand [helpForm, outputForm] fun found => do
    return .minify (← inputArgument found) (outputValue? found)

/-- The command that checks a stylesheet. -/
def readCheck : List String → Except UsageError Request :=
  readCommand [helpForm] fun found => do return .check (← inputArgument found)

/-- The command that lays JSON out. -/
def readFormat : List String → Except UsageError Request :=
  readCommand [helpForm, outputForm, indentForm] fun found => do
    return .formatJson (← inputArgument found) (← indentValue? found) (outputValue? found)

/-- The command that checks JSON. -/
def readValidate : List String → Except UsageError Request :=
  readCommand [helpForm] fun found => do return .validateJson (← inputArgument found)

/-- The command that runs the server. -/
def readServe : List String → Except UsageError Request :=
  readCommand serverForms fun found => do
    match found.others with
    | extra :: _ => throw (.extraArgument extra)
    | [] =>
      let tcpPort ← integerValue? found tcpPortForm
      let indent ← indentValue? found
      return .serve ((found.value? .host).getD Settings.defaultHost)
        (tcpPort.getD Settings.defaultTcpPort) (indent.getD Settings.defaultIndent)
        (debugValue found)

/-- The commands about JSON. -/
def readJson (arguments : List String) : Except UsageError Request := do
  let (_, request) ← readGroup [helpForm] (fun _ => .ok ()) jsonCommand? arguments
  return request
where
  jsonCommand? (name : String) : Option (List String → Except UsageError Request) :=
    match name with
    | "format" => some readFormat
    | "validate" => some readValidate
    | _ => none

/-- The commands of the program. -/
def programCommand? (name : String) : Option (List String → Except UsageError Request) :=
  match name with
  | "minify" => some readMinify
  | "check" => some readCheck
  | "json" => some readJson
  | "serve" => some readServe
  | _ => none

/-- Reads the arguments of a run. -/
def readArguments (arguments : List String) : Except UsageError Invocation := do
  let (level, request) ← readGroup programForms levelValue programCommand? arguments
  return ⟨level.getD Settings.defaultLevel, request⟩

end TextTidy.CommandLine
