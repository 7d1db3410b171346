import TextTidy.CommandLine.Invocation
import TextTidy.Css.Tidy
import TextTidy.Delivery
import TextTidy.Json.Report
import TextTidy.Text.Newline
import TextTidy.Version

/-!
# Runs

What a run of the program does, as a function of its arguments, standard input and the file tree:
what it prints, which files it leaves behind, and how it ends.
-/

namespace TextTidy.CommandLine

/-- What a run starts from. -/
structure Surroundings where
  /-- Standard input. -/
  input : Bytes
  /-- The file tree. -/
  files : FileStore
  /-- The text that begins log lines. -/
  time : String
  /-- How many arrays and objects may stand inside each other in JSON that is read. -/
  levels : Nat

/-- Why a run breaks off. -/
inductive Crash where
  | undecodableInput
  | nulInName
  | unwritable (fault : WriteFault)
  | beyond (limit : Json.Limit)
deriving DecidableEq, Repr

/-- The wording of a crash. -/
def Crash.message : Crash → String
  | undecodableInput => "The input is not UTF-8."
  | nulInName => WriteFault.nulInName.message
  | unwritable fault => fault.message
  | .beyond limit => limit.message

/-- How a run ends: with an exit code, because the arguments make no sense, because it breaks off,
    or with the server running. -/
inductive Ending where
  | exit (code : Nat)
  | misuse (e : UsageError)
  | crash (reason : Crash)
  | serving (settings : Settings) (debug : Bool)

/-- The exit code of a run. A server that is stopped has done its work. -/
def Ending.code : Ending → Nat
  | exit code => code
  | misuse _ => 2
  | crash _ => 1
  | serving _ _ => 0

/-- What a run has done when it ends. -/
structure Run where
  /-- How it ended. -/
  ending : Ending
  /-- What it printed on standard output. -/
  output : String
  /-- What it printed on standard error. -/
  messages : String
  /-- The file tree it left behind. -/
  files : FileStore

/-! ## Printing -/

/-- A line as it is printed: without control sequences for terminals. -/
def printed (line : String) : String := Text.plain line ++ "\n"

/-- Several lines as they are printed. -/
def printedLines (lines : List String) : String := String.join (lines.map printed)

/-- The log from a level on, one line for each record. -/
def logLines (time : String) (level : LogLevel) (log : List LogRecord) : String :=
  String.join ((log.filter (·.shownFrom level)).map fun record =>
    time ++ " " ++ record.line ++ "\n")

/-! ## Input and output -/

/-- The bytes of an input: standard input, or a file that has to be there. -/
def inputBytes (around : Surroundings) (name : String) : Except UsageError Bytes :=
  if name = standardInput then .ok around.input
  else
    match around.files.contents? name with
    | some bytes => .ok bytes
    | none => .error (.unreadableInput name)

/-- The name that a report gives to an input. -/
def inputLabel (name : String) : String := if name = standardInput then "<stdin>" else name

/-- The text of an input, with its line ends unified. -/
def inputText? (bytes : Bytes) : Option Text :=
  (Utf8.decodeStrict bytes).map fun s => Text.unifyLineEnds (Text.ofString s)

/-- Delivers the result of a command and ends the run. The messages so far are followed by the log
    of the delivery, the status, and what became of the delivery when an output was named or it
    failed. -/
def finish (around : Surroundings) (level : LogLevel) (messages status label : String)
    (destination : Option String) (result : Text) : Run :=
  let ended {σ : Type} (d : Delivered σ) (output : String) (files : FileStore) : Run :=
    let told := if destination.isSome || !d.delivery.ok then [d.delivery.message] else []
    ⟨.exit (if d.delivery.ok then 0 else 1), output,
      messages ++ logLines around.time level d.log ++ printedLines (status :: told), files⟩
  match destination with
  | none =>
    match deliver (Sink.stream "stdout") label result "" with
    | .ok d => ended d d.state around.files
    | .error (fault, held) => ⟨.crash (.unwritable fault), held, messages, around.files⟩
  | some name =>
    match deliver (Sink.file name) label result around.files with
    | .ok d => ended d "" d.state
    | .error (fault, files) => ⟨.crash (.unwritable fault), "", messages, files⟩

/-! ## Commands -/

/-- A run that leaves all files alone. -/
def Surroundings.leave (around : Surroundings) (ending : Ending) (output messages : String) : Run :=
  ⟨ending, output, messages, around.files⟩

/-- Compacts a stylesheet. -/
def compactStylesheet (around : Surroundings) (level : LogLevel) (destination : Option String)
    (css : Text) : Run :=
  let outcome := Css.tidy css
  let messages :=
    logLines around.time level (Css.tidyLog css) ++
      printedLines (outcome.fixLog.map ("  fixed: " ++ ·)) ++
      printedLines (outcome.warnings.map ("  WARNING: " ++ ·))
  if outcome.succeeded then
    finish around level messages outcome.status "minified" destination outcome.output
  else
    around.leave (.exit 1) "" <|
      messages ++ printed ("Error: " ++ outcome.status) ++
        printedLines (outcome.errors.map ("  ERROR: " ++ ·))

/-- Checks a stylesheet and prints what is found. -/
def checkStylesheet (around : Surroundings) (label : String) (css : Text) : Run :=
  if css.isBlank then around.leave (.exit 1) "" (printed "Error: CSS input is empty")
  else
    let verdict := Css.validate (Css.stripComments css)
    if verdict.diagnostics.isEmpty then
      around.leave (.exit 0) (printed ("OK: " ++ label ++ " is valid (0 diagnostics)")) ""
    else
      let summary :=
        "Summary: " ++ toString verdict.errors.length ++ " error(s), " ++
          toString verdict.warnings.length ++ " warning(s)"
      around.leave (.exit (if verdict.isValid then 0 else 1))
        (printedLines (verdict.diagnostics.map Css.Diagnostic.line ++ ["", summary])) ""

/-- Lays JSON out. -/
def layOutJson (around : Surroundings) (level : LogLevel) (indent : Indent)
    (destination : Option String) (text : Text) : Run :=
  match Json.format around.levels indent.val text with
  | .error limit => around.leave (.crash (.beyond limit)) "" ""
  | .ok report =>
    if report.ok then
      finish around level "" report.message "formatted JSON" destination report.output
    else around.leave (.exit 1) "" (printed report.message)

/-- Checks JSON. -/
def checkJson (around : Surroundings) (text : Text) : Run :=
  match Json.validate around.levels text with
  | .error limit => around.leave (.crash (.beyond limit)) "" ""
  | .ok report =>
    if report.ok then around.leave (.exit 0) (printed report.message) ""
    else around.leave (.exit 1) "" (printed report.message)

/-- Starts the server. -/
def startServer (around : Surroundings) (settings : Settings) (debug : Bool) : Run :=
  around.leave (.serving settings debug)
    (printed ("Starting " ++ programName ++ " on " ++ settings.host ++ ":" ++
      toString settings.tcpPort)) ""

/-- Reads an input and goes on with its text. -/
def withInput (around : Surroundings) (name : String) (act : Text → Run) : Run :=
  if holdsNul name then around.leave (.crash .nulInName) "" ""
  else
    match inputBytes around name with
    | .error e => around.leave (.misuse e) "" ""
    | .ok bytes =>
      match inputText? bytes with
      | none => around.leave (.crash .undecodableInput) "" ""
      | some text => act text

/-- Goes on unless the output is a directory, or its name is none for a file. -/
def withOutput (around : Surroundings) (destination : Option String) (act : Run) : Run :=
  match destination with
  | none => act
  | some name =>
    if holdsNul name then around.leave (.crash .nulInName) "" ""
    else if around.files.isDirectory name then
      around.leave (.misuse (.directoryOutput name)) "" ""
    else act

/-- Carries out a command. -/
def Command.run (around : Surroundings) (level : LogLevel) : Command → Run
  | .minify input destination =>
    withOutput around destination <| withInput around input <|
      compactStylesheet around level destination
  | .check input => withInput around input <| checkStylesheet around (inputLabel input)
  | .formatJson input indent destination =>
    withOutput around destination <| withInput around input <|
      layOutJson around level (indent.getD Settings.defaultIndent) destination
  | .validateJson input => withInput around input <| checkJson around
  | .serve host tcpPort indent debug =>
    startServer around (Settings.ofLevel indent host tcpPort level) debug

/-- The text about the program and its commands. -/
def helpText : String :=
  String.intercalate "\n"
    ["Usage: " ++ programName ++ " [--log-level LEVEL] COMMAND ...",
      "  minify [FILE] [-o FILE]                     compact a stylesheet",
      "  check [FILE]                                check a stylesheet",
      "  json format [FILE] [--indent N] [-o FILE]   lay JSON out",
      "  json validate [FILE]                        check JSON",
      "  serve [--host HOST] [--port PORT] [--indent N] [--debug]", ""]

/-- Carries out a run. -/
def run (around : Surroundings) (arguments : List String) : Run :=
  match readArguments arguments with
  | .error e => around.leave (.misuse e) "" ""
  | .ok invocation =>
    match invocation.request with
    | .version =>
      around.leave (.exit 0) (printed (programName ++ ", version " ++ version)) ""
    | .help => around.leave (.exit 0) helpText ""
    | .command command => command.run around invocation.level

end TextTidy.CommandLine
