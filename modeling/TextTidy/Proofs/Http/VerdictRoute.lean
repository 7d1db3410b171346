import TextTidy.Proofs.CommandLine.Run
import TextTidy.Proofs.Css.Verdict
import TextTidy.Proofs.Http.Envelope
import TextTidy.Proofs.Http.ReportRoute

/-!
# Verdicts on both interfaces

A stylesheet can be checked by a run and by a request. Both give the verdict on the stylesheet
without its comments, the run as its exit code and the answer in full, and the work on the same
stylesheet takes its first decision by that verdict. A run refuses blank text, which the interface
does not.
-/

namespace TextTidy.Http

open CommandLine (Supplies Surroundings readArguments run)
open Css (stripComments tidy validate)

variable {server : Server} {settings : Settings} {request : Request} {css : Text}

/-! ## The answer -/

/-- A request that posts a stylesheet to the route for verdicts. -/
structure PostsStylesheet (server : Server) (request : Request) (css : Text) : Prop where
  method : Text.upper request.method = "POST"
  plain : request.socket = false
  place : Lookup.ofPath request.path = .here (.route .validateCss)
  carries : ∃ value, envelope server request = .ok value ∧ textField "css" value = some css

/-- A posted stylesheet is answered with the verdict on what is left without its comments. -/
theorem PostsStylesheet.respond_eq (h : PostsStylesheet server request css) :
    respond server settings request = reply 200 (verdictBody (validate (stripComments css))) := by
  obtain ⟨value, henvelope, hcss⟩ := h.carries
  have hview : view server settings request .validateCss =
      .ok (reply 200 (verdictBody (validate (stripComments css)))) := by
    simp only [view, henvelope, hcss, bind, Except.bind]
    rfl
  rw [respond_post h.method h.plain h.place (by decide), hview]

/-- Every stylesheet can be posted, also one with lone surrogates. -/
theorem exists_posts (hlevels : 0 < server.levels)
    (htakes : server.takesJson (some "application/json") = true) (css : Text) :
    ∃ request, PostsStylesheet server request css := by
  have hmethod : Text.upper "POST" = "POST" := by decide
  have hplace : Lookup.ofPath (Utf8.encodeString "/api/css/validate") =
      .here (.route .validateCss) := by decide
  exact ⟨posting (Utf8.encodeString "/api/css/validate") "css" css, hmethod, rfl, hplace,
    _, envelope_posting hlevels htakes _ _ _, textField_enclosed _ _⟩

/-! ## The run -/

theorem checkStylesheet_ending {around : Surroundings} {label : String}
    (h : Text.isBlank css = false) :
    (CommandLine.checkStylesheet around label css).ending =
      .exit (if (validate (stripComments css)).isValid then 0 else 1) := by
  simp only [CommandLine.checkStylesheet, h, Bool.false_eq_true, if_false]
  split
  · rename_i hempty
    have hvalid : (validate (stripComments css)).isValid = true := by
      rw [Css.Validation.isValid, List.isEmpty_iff.mp hempty]
      rfl
    rw [hvalid]
    rfl
  · rfl

/-! ## Agreement -/

/-- The exit code of a run that checks a stylesheet, the answer to a request that posts it and the
outcome of the work on it agree: on whether the stylesheet is valid as it is, on the warnings if it
is, and on the errors if it is beyond repair. -/
theorem checks_agree {around : Surroundings} {level : LogLevel} {arguments : List String}
    {input s : String}
    (hread : readArguments arguments = .ok ⟨level, .command (.check input)⟩)
    (hnul : holdsNul input = false)
    (hbytes : CommandLine.inputBytes around input = .ok (Utf8.encodeString s))
    (hreturn : '\r' ∉ s.toList) (hink : Text.isBlank (Text.ofString s) = false)
    (hposts : PostsStylesheet server request (Text.ofString s)) :
    ∃ valid errors warnings,
      respond server settings request = reply 200 (record
        [("is_valid", .bool valid), ("errors", strings errors), ("warnings", strings warnings)]) ∧
      (run around arguments).ending = .exit (if valid then 0 else 1) ∧
      (valid = true → (tidy (Text.ofString s)).kind = .minified ∧
        (tidy (Text.ofString s)).warnings = warnings) ∧
      (valid = false → (tidy (Text.ofString s)).kind = .correctedAndMinified ∨
        (tidy (Text.ofString s)).kind = .rejected ∧
          (tidy (Text.ofString s)).errors = errors) := by
  have hinput : Supplies around input (Text.ofString s) :=
    ⟨hnul, _, hbytes, CommandLine.inputText?_encodeString hreturn⟩
  refine ⟨(validate (stripComments (Text.ofString s))).isValid, _, _, hposts.respond_eq, ?_, ?_, ?_⟩
  · rw [CommandLine.run_command hread, CommandLine.Command.run, hinput.withInput_eq,
      checkStylesheet_ending hink]
  · intro hvalid
    rcases Css.tidy_cases (Text.ofString s) with ⟨hblank, -⟩ | ⟨-, -, houtcome⟩ |
      ⟨-, hinvalid, -⟩ | ⟨-, hinvalid, -⟩
    · rw [hink] at hblank
      cases hblank
    · simp only [houtcome, and_self]
    · rw [hvalid] at hinvalid
      cases hinvalid
    · rw [hvalid] at hinvalid
      cases hinvalid
  · intro hinvalid
    rcases Css.tidy_cases (Text.ofString s) with ⟨hblank, -⟩ | ⟨-, hvalid, -⟩ |
      ⟨-, -, -, houtcome⟩ | ⟨-, -, -, houtcome⟩
    · rw [hink] at hblank
      cases hblank
    · rw [hinvalid] at hvalid
      cases hvalid
    · exact Or.inl (by rw [houtcome])
    · exact Or.inr (by simp only [houtcome, and_self])

/-- A stylesheet with a comment and a misspelt name is valid, and warned of, in all three ways. -/
theorem checks_agree_misspelt_name :
    let s := "/* x */ a\x7bcolr:red;\x7d"
    let around : Surroundings := ⟨Utf8.encodeString s, ⟨[], []⟩, "", 950⟩
    readArguments ["check"] = .ok ⟨.warning, .command (.check "-")⟩ ∧
    Text.isBlank (Text.ofString s) = false ∧
    ∃ request errors warnings,
      PostsStylesheet (Server.standard 950) request (Text.ofString s) ∧
      respond (Server.standard 950) Settings.standard request = reply 200 (record
        [("is_valid", .bool true), ("errors", strings errors), ("warnings", strings warnings)]) ∧
      (run around ["check"]).ending = .exit 0 ∧ (tidy (Text.ofString s)).kind = .minified ∧
      (tidy (Text.ofString s)).warnings = warnings := by
  intro s around
  have hread : readArguments ["check"] = .ok ⟨.warning, .command (.check "-")⟩ := by
    decide +kernel
  have hink : Text.isBlank (Text.ofString s) = false := by decide +kernel
  have hcode : (run around ["check"]).ending.code = 0 := by decide +kernel
  obtain ⟨request, hposts⟩ :=
    @exists_posts (Server.standard 950) (by decide) (by decide) (Text.ofString s)
  have hbytes : CommandLine.inputBytes around "-" = .ok (Utf8.encodeString s) := rfl
  obtain ⟨valid, errors, warnings, hrespond, hending, hvalid, -⟩ :=
    @checks_agree (Server.standard 950) Settings.standard request _ _ _ _ _ hread (by decide) hbytes
      (by decide) hink hposts
  cases valid with
  | true =>
    obtain ⟨hkind, hwarnings⟩ := hvalid rfl
    exact ⟨hread, hink, request, errors, warnings, hposts, hrespond, hending, hkind, hwarnings⟩
  | false =>
    rw [hending] at hcode
    cases hcode

end TextTidy.Http
