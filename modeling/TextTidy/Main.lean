import Std.Time.Format
import Std.Time.Zoned
import TextTidy.CommandLine.Run

/-!
# The program

Carries a run out in the real world: shows the run the files that its arguments name, prints what it
prints, and writes the files that it changed.
-/

namespace TextTidy.Main

/-- How many arrays and objects may stand inside each other in JSON that the program reads. What is
    proved of runs holds with any bound; this one is that of a reader with a stack of a thousand
    calls, of which the program that asks it to read has used some fifty. -/
def levels : Nat := 950

/-- The names in a path, without parts that lead nowhere. -/
def steps (path : String) : List String := (nameParts path).filter (!isIdlePart ·)

/-- The tree with what stands at a path of the real world, and with what leads there. -/
def look (files : FileStore) (path : String) : IO FileStore := do
  let here ← IO.currentDir
  let full := here / path
  let mut files := files
  let mut place := here / "/"
  let mut walked : List String := []
  for step in steps full.toString do
    place := place / step
    walked := if step == ".." then walked.dropLast else walked ++ [step]
    if ← place.isDir then
      files := files.setEntry walked .directory
    else if ← place.pathExists then
      let contents ← IO.FS.readBinFile place
      files := files.setEntry walked (.file contents.toList)
  return files

/-- The part of the real file tree that arguments may name. A value that is attached to its option
    is a name too. -/
def surroundings (arguments : List String) : IO FileStore := do
  let here ← IO.currentDir
  let mut files : FileStore := ⟨[], steps here.toString⟩
  for argument in arguments do
    let attached := (CommandLine.cutAtEquals argument).2.toList
    let behindLetter := String.ofList (argument.toList.drop 2)
    for path in [argument, behindLetter] ++ attached do
      unless path.isEmpty do
        files ← look files path
  return files

/-- Writes the files that a run changed. -/
def settle (before after : FileStore) : IO Unit := do
  for (path, entry) in after.entries do
    match entry with
    | .directory => pure ()
    | .file contents =>
      if before.entry? path ≠ some entry then
        IO.FS.writeBinFile ("/" ++ String.intercalate "/" path) ⟨contents.toArray⟩

/-- All bytes of standard input, when the arguments ask for them. -/
def standardInput (arguments : List String) : IO Bytes := do
  match CommandLine.readArguments arguments with
  | .ok ⟨_, .command command⟩ =>
    if command.input? = some CommandLine.standardInput then
      return (← (← IO.getStdin).readBinToEnd).toList
    else return []
  | _ => return []

end TextTidy.Main

open TextTidy in
/-- Carries out the run that the arguments ask for. -/
def main (arguments : List String) : IO UInt32 := do
  let files ← Main.surroundings arguments
  let input ← Main.standardInput arguments
  let now ← Std.Time.PlainDateTime.now
  let time := now.format "uuuu-MM-dd HH:mm:ss,SSS"
  let run := CommandLine.run ⟨input, files, time, Main.levels⟩ arguments
  Main.settle files run.files
  (← IO.getStdout).putStr run.output
  let messages ← IO.getStderr
  messages.putStr run.messages
  match run.ending with
  | .misuse e => messages.putStrLn ("Error: " ++ e.message)
  | .crash reason => messages.putStrLn ("Error: " ++ reason.message)
  | _ => pure ()
  return UInt32.ofNat run.ending.code
