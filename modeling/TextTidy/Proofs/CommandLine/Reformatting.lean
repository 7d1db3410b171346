import TextTidy.Proofs.CommandLine.Run
import TextTidy.Proofs.Json.Encodable
import TextTidy.Proofs.Json.Reformat

/-!
# Formatting into a file

A run that lays JSON out into a file opens the file for its result before the result has bytes. For
most texts that makes no difference: the file has the layout in the end, or what it had before. The
layout of a value with a lone surrogate has no bytes, and then the file is left empty.
-/

namespace TextTidy.CommandLine

variable {around : Surroundings} {level : LogLevel} {text : Text} {name : String}

/-- A run into a file that ends as one should, for a text that is read with so many levels: the file
    has the layout of the text and the exit code is zero, or the file has what it had and the exit
    code is another one; and no write breaks off. -/
structure EndsCleanly (levels : Nat) (ended : Run) (name : String) (earlier : Bytes) (indent : Int)
    (text : Text) : Prop where
  replaced_or_kept :
    (∃ report, Json.format levels indent text = .ok report ∧ ended.ending.code = 0 ∧
      ended.files.contents? name = some (Utf8.encode (report.output ++ [.char '\n']))) ∨
    (ended.ending.code ≠ 0 ∧ ended.files.contents? name = some earlier)
  unbroken : ∀ fault, ended.ending ≠ .crash (.unwritable fault)

/-- A run that ends without having written anything. -/
theorem endsCleanly_leave {levels : Nat} {ending : Ending} {earlier : Bytes} {indent : Int}
    {output messages : String} (hearlier : around.files.contents? name = some earlier)
    (hcode : ending.code ≠ 0) (hunbroken : ∀ fault, ending ≠ .crash (.unwritable fault)) :
    EndsCleanly levels (around.leave ending output messages) name earlier indent text :=
  ⟨Or.inr ⟨hcode, hearlier⟩, hunbroken⟩

/-- What becomes of the file, by what the text is. -/
theorem layOutJson_cases (indent : Indent) (hnul : holdsNul name = false) {earlier : Bytes}
    (hearlier : around.files.contents? name = some earlier) :
    (EndsCleanly around.levels (layOutJson around level indent (some name) text) name earlier
        indent.val text ∧
      ∀ v, Json.parse around.levels text = .ok v → v.Encodable) ∨
    ((layOutJson around level indent (some name) text).ending =
        .crash (.unwritable .unencodable) ∧
      (layOutJson around level indent (some name) text).files.contents? name = some [] ∧
      ∃ v, Json.parse around.levels text = .ok v ∧ ¬ v.Encodable) := by
  cases hread : Json.parse around.levels text with
  | error e =>
    refine Or.inl ⟨?_, fun v hv => by cases hv⟩
    cases e with
    | refused reason =>
      have hformat : Json.format around.levels indent.val text = .ok reason.report := by
        rw [Json.format, Json.reportWith, hread]
      rw [layOutJson, hformat]
      simp only [Json.report_not_ok, Bool.false_eq_true, if_false]
      exact endsCleanly_leave hearlier Nat.one_ne_zero fun fault heq => by cases heq
    | beyond limit =>
      have hformat : Json.format around.levels indent.val text = .error limit := by
        rw [Json.format, Json.reportWith, hread]
      rw [layOutJson, hformat]
      exact endsCleanly_leave hearlier Nat.one_ne_zero fun fault heq => by cases heq
  | ok v =>
    obtain ⟨place, hplace⟩ := FileStore.exists_writable_of_contents hearlier
    have hformat : Json.format around.levels indent.val text =
        .ok ⟨true, "JSON formatted successfully.", Json.layOut indent.val v, none⟩ := by
      rw [Json.format, Json.reportWith, hread]
    have hrun : layOutJson around level indent (some name) text =
        finish around level "" "JSON formatted successfully." "formatted JSON" (some name)
          (Json.layOut indent.val v) := by
      rw [layOutJson, hformat]
      rfl
    rw [hrun]
    rcases finish_file hnul hplace (Json.not_isBlank_layOut indent.val v) with
      ⟨hencodable, hending, hfiles⟩ | ⟨hnot, hending, hfiles⟩
    · refine Or.inl ⟨⟨Or.inl ⟨_, hformat, ?_, ?_⟩, ?_⟩, ?_⟩
      · rw [hending, Ending.code]
      · rw [hfiles]
        exact FileStore.contents?_setEntry hplace _
      · rw [hending]
        exact fun fault heq => by cases heq
      · intro w hw
        obtain rfl := Except.ok.inj hw
        exact (Json.encodable_layOut indent.val v).mp hencodable
    · refine Or.inr ⟨hending, ?_, v, rfl, mt (Json.encodable_layOut indent.val v).mpr hnot⟩
      rw [hfiles]
      exact FileStore.contents?_setEntry hplace _

/-- A run that lays a text out into a file leaves the layout there, or what was there before, except
for the texts whose value has a lone surrogate. Then the write breaks off and the file is empty. -/
theorem formatting_endsCleanly_iff {arguments : List String} {input : String}
    {indent : Option Indent} {earlier : Bytes}
    (hread : readArguments arguments = .ok ⟨level, .command (.formatJson input indent (some name))⟩)
    (hinput : Supplies around input text) (hnul : holdsNul name = false)
    (hearlier : around.files.contents? name = some earlier) :
    (EndsCleanly around.levels (run around arguments) name earlier
        (indent.getD Settings.defaultIndent).val text ↔
      ∀ v, Json.parse around.levels text = .ok v → v.Encodable) ∧
    ∀ v, Json.parse around.levels text = .ok v → ¬ v.Encodable →
      (run around arguments).ending = .crash (.unwritable .unencodable) ∧
      (run around arguments).files.contents? name = some [] := by
  have houtput : Receives around.files (some name) := by
    intro other hother
    obtain rfl := Option.mem_some_iff.mp hother
    exact ⟨hnul, FileStore.exists_writable_of_contents hearlier⟩
  have hrun : run around arguments =
      layOutJson around level (indent.getD Settings.defaultIndent) (some name) text := by
    rw [run_command hread, Command.run, houtput.withOutput_eq, hinput.withInput_eq]
  rw [hrun]
  rcases layOutJson_cases (indent.getD Settings.defaultIndent) hnul hearlier with
    ⟨hclean, hall⟩ | ⟨hending, hcontents, v, hparse, hnot⟩
  · exact ⟨iff_of_true hclean hall, fun v hv hnot => absurd (hall v hv) hnot⟩
  · refine ⟨iff_of_false ?_ fun hall => hnot (hall v hparse), fun _ _ _ => ⟨hending, hcontents⟩⟩
    exact fun hclean => hclean.unbroken _ hending

/-- Two escapes for the halves of one character are laid out as that character. -/
theorem formatting_endsCleanly_surrogate_pair :
    let around : Surroundings :=
      ⟨Utf8.encodeString "\"\\ud83d\\ude00\"", ⟨[(["out.json"], .file [0x5B])], []⟩, "", 950⟩
    let text := Text.ofString "\"\\ud83d\\ude00\""
    readArguments ["json", "format", "-o", "out.json"] =
        .ok ⟨.warning, .command (.formatJson "-" none (some "out.json"))⟩ ∧
      Supplies around "-" text ∧ holdsNul "out.json" = false ∧
      around.files.contents? "out.json" = some [0x5B] ∧
      EndsCleanly 950 (run around ["json", "format", "-o", "out.json"]) "out.json" [0x5B] 2
        text := by
  intro around text
  have hread : readArguments ["json", "format", "-o", "out.json"] =
      .ok ⟨.warning, .command (.formatJson "-" none (some "out.json"))⟩ := by decide +kernel
  have hinput : Supplies around "-" text :=
    ⟨by decide, _, rfl, inputText?_encodeString (by decide)⟩
  have hnul : holdsNul "out.json" = false := by decide
  have hearlier : around.files.contents? "out.json" = some [0x5B] := by decide +kernel
  have hparse : Json.parse around.levels text = .ok (.str (Text.ofString "😀")) := by
    let high : Json.Grammar.HexDigits :=
      ⟨⟨'d', 13, rfl⟩, ⟨'8', 8, rfl⟩, ⟨'3', 3, rfl⟩, ⟨'d', 13, rfl⟩⟩
    let low : Json.Grammar.HexDigits :=
      ⟨⟨'d', 13, rfl⟩, ⟨'e', 14, rfl⟩, ⟨'0', 0, rfl⟩, ⟨'0', 0, rfl⟩⟩
    have hcontent : Json.Grammar.content [.numeric high, .numeric low] = Text.ofString "😀" := by
      decide +kernel
    exact Json.parse_eq_ok_iff.mpr ⟨⟨[], .string [.numeric high, .numeric low], []⟩, rfl,
      congrArg Json.Value.str hcontent, Json.fits_of_length (by decide) (by decide)⟩
  refine ⟨hread, hinput, hnul, hearlier, ?_⟩
  refine (formatting_endsCleanly_iff hread hinput hnul hearlier).1.mpr fun v hv => ?_
  rw [hparse] at hv
  obtain rfl := Except.ok.inj hv
  exact Json.encodable_str.mpr (Text.encodable_ofString "😀")

/-- An escape for half a character: the run breaks off and leaves the file empty. -/
theorem lone_surrogate_empties_file :
    let around : Surroundings :=
      ⟨Utf8.encodeString "\"\\ud800\"", ⟨[(["out.json"], .file [0x5B])], []⟩, "", 950⟩
    let ended := run around ["json", "format", "-o", "out.json"]
    ended.ending.code = 1 ∧ around.files.contents? "out.json" = some [0x5B] ∧
      ended.files.contents? "out.json" = some [] := by
  decide +kernel

end TextTidy.CommandLine
