import TextTidy.FileStore
import TextTidy.Log
import TextTidy.Text.Blank
import TextTidy.Text.TerminalEscape
import TextTidy.Text.UpperCase

/-!
# Delivering finished text

Finished text is handed to a sink, and the caller is told how that went. A write that fails is
reported and logged, and leaves what the sink holds as it was. Blank text is not delivered at all.
-/

namespace TextTidy

/-- Why a write breaks off: the text has no bytes, or the name is none for a file. -/
inductive WriteFault where
  | unencodable
  | nulInName
deriving DecidableEq, Repr

/-- The wording of a fault. -/
def WriteFault.message : WriteFault → String
  | unencodable => "The output cannot be written in UTF-8."
  | nulInName => "embedded null byte"

/-- How a write ended. Text with lone surrogates has no bytes: a write may find that out only after
    it has begun. -/
inductive Written (σ : Type) where
  | done (state : σ)
  | failed (reason : String)
  | broken (fault : WriteFault) (state : σ)

/-- Somewhere finished text can be written, which holds a `σ`. -/
structure Sink (σ : Type) where
  /-- The name by which messages call it. -/
  name : String
  /-- How a write changes what it holds. -/
  write : Text → σ → Written σ

namespace Sink

/-- A stream that is no terminal. Control sequences for terminals do not reach it. -/
def stream (name : String) : Sink String where
  name := name
  write text held :=
    match (Text.dropEscapes text).toString? with
    | some s => .done (held ++ s ++ "\n")
    | none => .broken .unencodable held

/-- A file, whose contents every write replaces. -/
def file (path : String) : Sink FileStore where
  name := normalName path
  write text files :=
    if holdsNul path then .broken .nulInName files
    else
      match files.writable (normalName path) with
      | .error e => .failed (e.message (normalName path))
      | .ok place =>
        match text.toString? with
        | some s => .done (files.setEntry place (.file (Utf8.encodeString (s ++ "\n"))))
        | none => .broken .unencodable (files.setEntry place (.file []))

end Sink

/-- What the caller of a delivery is told. -/
structure Delivery where
  /-- Whether the text arrived. -/
  ok : Bool
  /-- What became of it. -/
  message : String
deriving DecidableEq, Repr

/-- A delivery that ended. -/
structure Delivered (σ : Type) where
  /-- What the caller is told. -/
  delivery : Delivery
  /-- What was logged. -/
  log : List LogRecord
  /-- What the sink holds now. -/
  state : σ

/-- Hands text to a sink. The label says what the text is. The result is the fault and what the sink
    holds, without a word to the caller, when the write breaks off. -/
def deliver {σ : Type} (sink : Sink σ) (label : String) (text : Text) (state : σ) :
    Except (WriteFault × σ) (Delivered σ) :=
  if text.isBlank then
    .ok ⟨⟨false, "No " ++ label ++ " output available to copy."⟩, [], state⟩
  else
    match sink.write text state with
    | .done state =>
      .ok ⟨⟨true, Text.upperFirst label ++ " output copied to " ++ sink.name ++ "."⟩, [], state⟩
    | .failed reason =>
      .ok ⟨⟨false, "Could not write to " ++ sink.name ++ ". Please copy manually."⟩,
        [⟨.warning, "textsmith.sink", "Writing to " ++ sink.name ++ " failed: " ++ reason⟩], state⟩
    | .broken fault state => .error (fault, state)

end TextTidy
