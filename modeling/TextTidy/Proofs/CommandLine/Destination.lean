import TextTidy.Proofs.CommandLine.Compaction

/-!
# Printing a compaction and writing it

A compaction that is printed and one that is written into a file exit alike. The file has the text
that was made, and standard output has it without the control sequences of terminals; so they get
the same bytes for the texts that have none, and for no others.
-/

namespace TextTidy.CommandLine

open Css (tidy stripComments)

variable {around : Surroundings} {level : LogLevel} {destination : Option String}
  {input name : String} {text : Text}

theorem receives_none (files : FileStore) : Receives files none := by
  intro name hname
  cases hname

theorem run_minify {arguments : List String}
    (hread : readArguments arguments = .ok ⟨level, .command (.minify input destination)⟩)
    (hinput : Supplies around input text) (houtput : Receives around.files destination) :
    run around arguments = compactStylesheet around level destination text := by
  rw [run_command hread, Command.run, houtput.withOutput_eq, hinput.withInput_eq]

theorem compactStylesheet_code_iff (houtput : Receives around.files destination)
    (htext : Text.Encodable text) :
    (compactStylesheet around level destination text).ending.code = 0 ↔
      (tidy text).succeeded = true ∧ Text.isBlank (stripComments text) = false := by
  rw [compactStylesheet_ending houtput htext, Ending.code]
  split <;> simp [*]

theorem compactStylesheet_printed (htext : Text.Encodable text)
    (hsucceeded : (tidy text).succeeded = true)
    (hblank : Text.isBlank (tidy text).output = false) :
    Text.ofString (compactStylesheet around level none text).output =
      Text.dropEscapes (tidy text).output ++ [.char '\n'] := by
  rw [compactStylesheet, if_pos hsucceeded]
  exact (finish_stream (Css.encodable_output htext) hblank).2

theorem compactStylesheet_written (houtput : Receives around.files (some name))
    (htext : Text.Encodable text) (hsucceeded : (tidy text).succeeded = true)
    (hblank : Text.isBlank (tidy text).output = false) :
    (compactStylesheet around level (some name) text).files.contents? name =
      some (Utf8.encode ((tidy text).output ++ [.char '\n'])) := by
  obtain ⟨hnul, place, hplace⟩ := houtput name rfl
  rw [compactStylesheet, if_pos hsucceeded]
  rcases finish_file hnul hplace hblank with ⟨-, -, hfiles⟩ | ⟨hnot, -⟩
  · rw [hfiles, FileStore.contents?_setEntry hplace]
  · exact absurd (Css.encodable_output htext) hnot

/-- A run that prints its compaction and one that writes it exit with zero for the same texts. Then
the one has printed what was made without its control sequences, and the other has written all of
it; and these are the same bytes exactly if it has no control sequence. -/
theorem printed_eq_written_iff {level' : LogLevel} {arguments arguments' : List String}
    (hprint : readArguments arguments = .ok ⟨level, .command (.minify input none)⟩)
    (hwrite : readArguments arguments' = .ok ⟨level', .command (.minify input (some name))⟩)
    (hinput : Supplies around input text) (houtput : Receives around.files (some name)) :
    ((run around arguments).ending.code = 0 ↔ (run around arguments').ending.code = 0) ∧
    ((run around arguments).ending.code = 0 →
      Utf8.encodeString (run around arguments).output =
          Utf8.encode (Text.dropEscapes (tidy text).output ++ [.char '\n']) ∧
        (run around arguments').files.contents? name =
          some (Utf8.encode ((tidy text).output ++ [.char '\n'])) ∧
        ((run around arguments').files.contents? name =
            some (Utf8.encodeString (run around arguments).output) ↔
          ¬ Text.HoldsEscape (tidy text).output)) := by
  have hnone := receives_none around.files
  rw [run_minify hprint hinput hnone, run_minify hwrite hinput houtput,
    compactStylesheet_code_iff hnone hinput.encodable,
    compactStylesheet_code_iff houtput hinput.encodable]
  refine ⟨Iff.rfl, fun ⟨hsucceeded, hstripped⟩ => ?_⟩
  have hblank : Text.isBlank (tidy text).output = false := by
    rw [← Bool.not_eq_true, Css.isBlank_output_iff hsucceeded, hstripped]
    exact Bool.false_ne_true
  have hprinted : Utf8.encodeString (compactStylesheet around level none text).output =
      Utf8.encode (Text.dropEscapes (tidy text).output ++ [.char '\n']) := by
    rw [Utf8.encodeString, compactStylesheet_printed hinput.encodable hsucceeded hblank]
  have hwritten : (compactStylesheet around level' (some name) text).files.contents? name =
      some (Utf8.encode ((tidy text).output ++ [.char '\n'])) :=
    compactStylesheet_written houtput hinput.encodable hsucceeded hblank
  refine ⟨hprinted, hwritten, ?_⟩
  rw [hwritten, hprinted, Option.some.injEq, Utf8.encode_inj, List.append_left_inj, eq_comm,
    Text.dropEscapes_eq_self_iff]

/-- An escape character that begins no control sequence is printed and written. -/
theorem printed_eq_written_lone_escape :
    let around : Surroundings :=
      ⟨Utf8.encodeString "a\x7bb:\x1bc;\x7d", ⟨[], []⟩, "", 950⟩
    (run around ["minify"]).ending.code = 0 ∧
      (run around ["minify", "-o", "out.css"]).files.contents? "out.css" =
        some (Utf8.encodeString (run around ["minify"]).output) := by
  intro around
  have hprint : readArguments ["minify"] = .ok ⟨.warning, .command (.minify "-" none)⟩ := by
    decide +kernel
  have hwrite : readArguments ["minify", "-o", "out.css"] =
      .ok ⟨.warning, .command (.minify "-" (some "out.css"))⟩ := by decide +kernel
  have hinput : Supplies around "-" (Text.ofString "a\x7bb:\x1bc;\x7d") :=
    ⟨by decide, _, rfl, inputText?_encodeString (by decide)⟩
  have houtput : Receives around.files (some "out.css") := by
    intro name hname
    obtain rfl := Option.mem_some_iff.mp hname
    exact ⟨by decide, ["out.css"], by decide +kernel⟩
  have hcode : (run around ["minify"]).ending.code = 0 := by decide +kernel
  have hnone : ¬ Text.HoldsEscape (tidy (Text.ofString "a\x7bb:\x1bc;\x7d")).output :=
    Text.dropEscapes_eq_self_iff.mp (by decide +kernel)
  exact ⟨hcode, ((printed_eq_written_iff hprint hwrite hinput houtput).2 hcode).2.2.mpr hnone⟩

/-- A stylesheet with a control sequence in a value: the run that prints it loses the sequence and
exits with zero. -/
theorem control_sequence_written_not_printed :
    let around : Surroundings :=
      ⟨Utf8.encodeString "a\x7bb:\x1b[0mc;\x7d", ⟨[], []⟩, "", 950⟩
    let printed := run around ["minify"]
    let written := run around ["minify", "-o", "out.css"]
    printed.ending.code = 0 ∧ printed.output = "a\x7bb:c\x7d\n" ∧
      written.files.contents? "out.css" = some (Utf8.encodeString "a\x7bb:\x1b[0mc\x7d\n") ∧
      written.files.contents? "out.css" ≠ some (Utf8.encodeString printed.output) := by
  decide +kernel

end TextTidy.CommandLine
