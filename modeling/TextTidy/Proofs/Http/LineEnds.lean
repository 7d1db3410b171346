import TextTidy.Proofs.CommandLine.Run
import TextTidy.Proofs.Http.Envelope
import TextTidy.Proofs.Http.ReportRoute
import TextTidy.Proofs.Json.LineEnds

/-!
# Line ends on both interfaces

A run unifies the line ends of the file that it checks, and a request leaves those of its text as
they are. Both report the same on the same text, down to the line and the column.
-/

namespace TextTidy.Http

open CommandLine (Surroundings inputBytes inputText? printed readArguments run)
open Json (LineEnds ReadError ReturnsPaired joinLineEnds parse)

/-- Every text can be posted for a verdict. -/
theorem exists_posts_text {server : Server} (hlevels : 0 < server.levels)
    (htakes : server.takesJson (some "application/json") = true) (settings : Settings) (s : Text) :
    ∃ request, Posts server settings request .validateJson s := by
  have hmethod : Text.upper "POST" = "POST" := by decide
  have hplace : Lookup.ofPath (Utf8.encodeString "/api/json/validate") =
      .here (.route .validateJson) := by decide
  exact ⟨posting (Utf8.encodeString "/api/json/validate") "text" s, hmethod, rfl, hplace,
    Or.inr rfl, _, envelope_posting hlevels htakes _ _ _, textField_enclosed _ _,
    fun h => by cases h⟩

/-- What a run prints of a text that it checks, and how it ends. -/
theorem checkJson_eq (around : Surroundings) (s : Text) :
    CommandLine.checkJson around s =
      match parse around.levels s with
      | .ok _ => around.leave (.exit 0) (printed "JSON is valid.") ""
      | .error (.refused reason) => around.leave (.exit 1) "" (printed reason.message)
      | .error (.beyond limit) => around.leave (.crash (.beyond limit)) "" "" := by
  simp only [CommandLine.checkJson, Json.validate, Json.reportWith]
  rcases parse around.levels s with ((_ | m) | limit) | v <;> rfl

theorem checkJson_agree {s t : Text} (h : LineEnds s t) (around : Surroundings) :
    CommandLine.checkJson around s = CommandLine.checkJson around t := by
  simp only [CommandLine.checkJson, Json.validate, h.reportWith_agree]

/-- A text whose carriage returns all have a line feed behind them is read as with line feeds alone:
it has the same value, or is refused for the same problem at the same line and column, or exceeds
the same bound. So a request that posts the text and a run that checks a file of the same bytes,
with as many levels to read it, tell the same, and the place that one reports is the place that the
other one reports. -/
theorem lineEnds_keep_places {s : Text} (h : ReturnsPaired s) :
    (∀ levels, (parse levels s).mapError ReadError.withoutOffset =
      (parse levels (joinLineEnds s)).mapError ReadError.withoutOffset) ∧
    ∀ (server : Server) (settings : Settings) (request : Request) (around : Surroundings)
      (level : LogLevel) (arguments : List String) (input content : String),
      server.levels = around.levels → s = Text.ofString content →
      Posts server settings request .validateJson s →
      readArguments arguments = .ok ⟨level, .command (.validateJson input)⟩ →
      holdsNul input = false → inputBytes around input = .ok (Utf8.encodeString content) →
      match parse around.levels s with
      | .ok _ =>
        respond server settings request = replyReport ⟨true, "JSON is valid.", [], none⟩ ∧
          run around arguments = around.leave (.exit 0) (printed "JSON is valid.") ""
      | .error (.refused reason) =>
        respond server settings request = replyReport reason.report ∧
          run around arguments = around.leave (.exit 1) "" (printed reason.message)
      | .error (.beyond limit) =>
        respond server settings request = ⟨500, none, true, none⟩ ∧
          run around arguments = around.leave (.crash (.beyond limit)) "" "" := by
  obtain ⟨t, ht⟩ := h.exists_lineEnds
  rw [ht.joinLineEnds_eq]
  refine ⟨fun levels => ht.parse_agree, ?_⟩
  intro server settings request around level arguments input content hlevels hs hposts hread hnul
    hbytes
  have htext : inputText? (Utf8.encodeString content) = some t := by
    rw [inputText?, Utf8.decodeStrict_encodeString, Option.map_some, ← hs, ht.unifyLineEnds_eq]
  have hinput : CommandLine.Supplies around input t := ⟨hnul, _, hbytes, htext⟩
  have hrun : run around arguments = CommandLine.checkJson around s := by
    rw [CommandLine.run_command hread, CommandLine.Command.run, hinput.withInput_eq,
      checkJson_agree ht]
  rw [hrun, checkJson_eq, hposts.respond_validate, hlevels, Json.validate, Json.reportWith]
  rcases parse around.levels s with (reason | limit) | v <;> exact ⟨rfl, rfl⟩

/-- An array with two lines, the second one with a word that is no value. -/
theorem lineEnds_keep_places_in_array :
    let content := "[1,\r\n x]"
    let around : Surroundings := ⟨Utf8.encodeString content, ⟨[], []⟩, "", 950⟩
    ReturnsPaired (Text.ofString content) ∧
    readArguments ["json", "validate"] = .ok ⟨.warning, .command (.validateJson "-")⟩ ∧
    ∃ (request : Request) (m : Json.Malformation),
      Posts (Server.standard 950) Settings.standard request .validateJson (Text.ofString content) ∧
      m.place = ⟨2, 2⟩ ∧
      respond (Server.standard 950) Settings.standard request =
        replyReport ⟨false, m.message, [], some m.place⟩ ∧
      run around ["json", "validate"] = around.leave (.exit 1) "" (printed m.message) := by
  intro content around
  have hpaired : ReturnsPaired (Text.ofString content) := by decide
  have hread : readArguments ["json", "validate"] =
      .ok ⟨.warning, .command (.validateJson "-")⟩ := by decide +kernel
  have hplace : (match parse 950 (Text.ofString content) with
      | .error (.refused (.malformed m)) => some m.place
      | _ => none) = some ⟨2, 2⟩ := by
    decide +kernel
  obtain ⟨request, hposts⟩ := @exists_posts_text (Server.standard 950) (by decide) (by decide)
    Settings.standard (Text.ofString content)
  have hboth := (lineEnds_keep_places hpaired).2 (Server.standard 950) Settings.standard request
    around .warning ["json", "validate"] "-" content rfl rfl hposts hread (by decide) rfl
  split at hplace
  · rename_i m hparse
    rw [hparse] at hboth
    exact ⟨hpaired, hread, request, m, hposts, Option.some.inj hplace, hboth⟩
  · cases hplace

end TextTidy.Http
