import TextTidy.Text.Quoted
import TextTidy.Text.Split
import TextTidy.Text.Utf8

/-!
# Files and directories

The part of a file tree that the program may touch, and the directory it works in. A name is looked
up step by step, and the way to a file has to lead through directories that exist.
-/

namespace TextTidy

/-- What a path can lead to. -/
inductive Entry where
  | file (contents : Bytes)
  | directory
deriving DecidableEq, Repr

/-- A file tree. A path is given by the names from the root on; the root itself is always a
    directory. -/
structure FileStore where
  /-- What stands under which path. -/
  entries : List (List String × Entry)
  /-- The path of the working directory, from which names start that do not start at the root. -/
  here : List String
deriving DecidableEq, Repr

/-- Why a name cannot be used. -/
inductive PathError where
  | noEntry
  | notDirectory
  | isDirectory
  | nameTooLong
deriving DecidableEq, Repr

/-- The wording of an error about a path. -/
def PathError.message (path : String) (e : PathError) : String :=
  let reason :=
    match e with
    | noEntry => "[Errno 2] No such file or directory"
    | notDirectory => "[Errno 20] Not a directory"
    | isDirectory => "[Errno 21] Is a directory"
    | nameTooLong => "[Errno 36] File name too long"
  reason ++ ": " ++ Text.quoted path

/-- Where a name leads: to a file, to a directory, or to a place in a directory where nothing is. -/
inductive Target where
  | file (path : List String) (contents : Bytes)
  | directory (path : List String)
  | vacant (path : List String)
deriving DecidableEq, Repr

/-! ## Names -/

/-- The parts of a name between slashes. -/
def nameParts (name : String) : List String := (Text.splitOn '/' name.toList).map String.ofList

/-- Whether a part of a name leads nowhere: it is empty or a single dot. -/
def isIdlePart (part : String) : Bool := part == "" || part == "."

/-- The slashes that begin a name which starts at the root. Two of them are kept, more are one. -/
def rootSlashes (name : String) : String :=
  match name.toList with
  | '/' :: '/' :: '/' :: _ => "/"
  | '/' :: '/' :: _ => "//"
  | '/' :: _ => "/"
  | _ => ""

/-- A name without parts that lead nowhere. -/
def normalName (name : String) : String :=
  let parts := (nameParts name).filter (!isIdlePart ·)
  let text := rootSlashes name ++ String.intercalate "/" parts
  if text.isEmpty then "." else text

/-- The longest part of a name, in bytes. -/
def maxPartBytes : Nat := 255

/-- The longest name, in bytes. -/
def maxNameBytes : Nat := 4095

/-- Whether a name holds the character that would end it for the file system. No file can be asked
    for by such a name. -/
def holdsNul (name : String) : Bool := name.toList.contains '\x00'

namespace FileStore

/-- What stands under a path. -/
def entry? (s : FileStore) (path : List String) : Option Entry :=
  if path.isEmpty then some .directory else s.entries.lookup path

/-- Follows the parts of a name from a directory. -/
def walk (s : FileStore) : (path : List String) → (parts : List String) → Except PathError Target
  | path, [] => .ok (.directory path)
  | path, part :: rest =>
    if isIdlePart part then walk s path rest
    else if part == ".." then walk s path.dropLast rest
    else if maxPartBytes < part.utf8ByteSize then .error .nameTooLong
    else
      match s.entry? (path ++ [part]) with
      | some .directory => walk s (path ++ [part]) rest
      | some (.file contents) =>
        if rest.isEmpty then .ok (.file (path ++ [part]) contents) else .error .notDirectory
      | none => if rest.isEmpty then .ok (.vacant (path ++ [part])) else .error .noEntry

/-- Where a name leads. -/
def resolve (s : FileStore) (name : String) : Except PathError Target :=
  if name.isEmpty then .error .noEntry
  else if maxNameBytes < name.utf8ByteSize then .error .nameTooLong
  else s.walk (if name.toList.head? = some '/' then [] else s.here) (nameParts name)

/-- Whether a name leads to a directory. -/
def isDirectory (s : FileStore) (name : String) : Bool :=
  match s.resolve name with
  | .ok (.directory _) => true
  | _ => false

/-- The contents of the file that a name leads to. -/
def contents? (s : FileStore) (name : String) : Option Bytes :=
  match s.resolve name with
  | .ok (.file _ contents) => some contents
  | _ => none

/-- The tree with an entry under a path, in place of what was there. -/
def setEntry (s : FileStore) (path : List String) (entry : Entry) : FileStore :=
  ⟨(path, entry) :: s.entries.filter (·.1 != path), s.here⟩

/-- The place that a file of the given name has or would have, when it can be written. -/
def writable (s : FileStore) (name : String) : Except PathError (List String) :=
  match s.resolve name with
  | .error e => .error e
  | .ok (.directory _) => .error .isDirectory
  | .ok (.file path _) => .ok path
  | .ok (.vacant path) => .ok path

end FileStore

end TextTidy
