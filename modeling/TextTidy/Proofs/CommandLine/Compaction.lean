import TextTidy.Proofs.CommandLine.Run
import TextTidy.Proofs.Css.Output

/-!
# The exit code of a compaction

A run that compacts a stylesheet decides twice whether it went well: the work on the stylesheet has
an outcome, and the delivery refuses blank text. The two differ on the stylesheets of which nothing
is left, and on no others.
-/

namespace TextTidy.CommandLine

open Css (tidy stripComments)

variable {around : Surroundings} {level : LogLevel} {destination : Option String} {text : Text}

/-- A compaction exits with zero if the work succeeded and something is left. -/
theorem compactStylesheet_ending (houtput : Receives around.files destination)
    (htext : Text.Encodable text) :
    (compactStylesheet around level destination text).ending =
      .exit (if (tidy text).succeeded = true ∧ Text.isBlank (stripComments text) = false then 0
        else 1) := by
  cases hsucceeded : (tidy text).succeeded with
  | false => simp [compactStylesheet, hsucceeded, Surroundings.leave]
  | true =>
    have hending : ∀ messages status label,
        (finish around level messages status label destination (tidy text).output).ending =
          .exit (if Text.isBlank (stripComments text) = true then 1 else 0) := by
      intro messages status label
      rw [finish_ending houtput (Css.encodable_output htext)]
      simp only [Css.isBlank_output_iff hsucceeded]
    rw [compactStylesheet, hsucceeded, if_pos rfl, hending]
    cases Text.isBlank (stripComments text) <;> rfl

/-- A run that compacts exits with zero if the work succeeded and something but comments and blanks
went in. So its exit code tells success exactly for the texts that are not blank without their
comments, and the blank ones. -/
theorem compacting_exits_zero_iff {arguments : List String} {input : String}
    (hread : readArguments arguments = .ok ⟨level, .command (.minify input destination)⟩)
    (hinput : Supplies around input text) (houtput : Receives around.files destination) :
    (∃ code, (run around arguments).ending = .exit code) ∧
    ((run around arguments).ending.code = 0 ↔
      (tidy text).succeeded = true ∧ Text.isBlank (stripComments text) = false) ∧
    (((run around arguments).ending.code = 0 ↔ (tidy text).succeeded = true) ↔
      (Text.isBlank (stripComments text) = true → Text.isBlank text = true)) := by
  have hending : (run around arguments).ending =
      .exit (if (tidy text).succeeded = true ∧ Text.isBlank (stripComments text) = false then 0
        else 1) := by
    rw [run_command hread, Command.run, houtput.withOutput_eq, hinput.withInput_eq,
      compactStylesheet_ending houtput hinput.encodable]
  have hzero : (run around arguments).ending.code = 0 ↔
      (tidy text).succeeded = true ∧ Text.isBlank (stripComments text) = false := by
    rw [hending, Ending.code]
    split <;> simp [*]
  refine ⟨⟨_, hending⟩, hzero, ?_⟩
  rw [hzero]
  cases hsucceeded : (tidy text).succeeded with
  | true =>
    have hblank := Css.not_isBlank_of_succeeded hsucceeded
    cases hstripped : Text.isBlank (stripComments text) <;> simp [hblank]
  | false =>
    refine iff_of_true (by simp) fun hstripped => ?_
    cases hblank : Text.isBlank text with
    | true => rfl
    | false =>
      rw [Css.succeeded_of_isBlank_stripComments hblank hstripped] at hsucceeded
      cases hsucceeded

/-- A stylesheet with a comment, compacted into a file. -/
theorem compacting_exits_zero_into_file :
    let around : Surroundings :=
      ⟨Utf8.encodeString "/* x */ a\x7bb:c;\x7d", ⟨[(["out.css"], .file [0x2E])], []⟩, "", 950⟩
    let text := Text.ofString "/* x */ a\x7bb:c;\x7d"
    Supplies around "-" text ∧ Receives around.files (some "out.css") ∧
      (run around ["minify", "-o", "out.css"]).ending.code = 0 := by
  intro around text
  have hread : readArguments ["minify", "-o", "out.css"] =
      .ok ⟨.warning, .command (.minify "-" (some "out.css"))⟩ := by decide +kernel
  have hinput : Supplies around "-" text :=
    ⟨by decide, _, rfl, inputText?_encodeString (by decide)⟩
  have houtput : Receives around.files (some "out.css") := by
    intro name hname
    obtain rfl := Option.mem_some_iff.mp hname
    exact ⟨by decide, ["out.css"], by decide +kernel⟩
  have hverdict : (tidy text).succeeded = true ∧ Text.isBlank (stripComments text) = false := by
    decide +kernel
  exact ⟨hinput, houtput, (compacting_exits_zero_iff hread hinput houtput).2.1.mpr hverdict⟩

/-- A comment alone is compacted, and the run that does so exits with one. -/
theorem comment_compacted_exits_one :
    (run ⟨Utf8.encodeString "/* x */", ⟨[], []⟩, "", 950⟩ ["minify"]).ending.code = 1 ∧
      (tidy (Text.ofString "/* x */")).succeeded = true := by
  decide +kernel

end TextTidy.CommandLine
