import TextTidy.Css.Tidy
import TextTidy.Proofs.Css.Brace
import TextTidy.Proofs.Scan

/-!
# Verdicts

Three of the rules can find an error, and each of them finds at most one. What comes of a raw text
is decided by the verdict on the text without its comments and, if need be, by the one on the
corrected text.
-/

namespace TextTidy.Css

/-! ## The errors of a text -/

theorem validate_errors (s : Text) :
    (validate s).errors =
      errorMessages (Rule.braceBalance.check s) ++ errorMessages (Rule.missingSemicolon.check s) ++
        errorMessages (Rule.declarationFormat.check s) := by
  have htypos : errorMessages (Rule.propertyTypos.check s) = [] := by
    simp [errorMessages, Rule.propertyTypos, Diagnostic.isError]
  have happend : ∀ a b, errorMessages (a ++ b) = errorMessages a ++ errorMessages b := by
    intro a b
    simp [errorMessages]
  simp [Validation.errors, validate, validateWith, Rule.builtIn, happend, htypos]

theorem errorMessages_braceBalance (s : Text) :
    errorMessages (Rule.braceBalance.check s) =
      if (balance s).balanced then [] else ["Unmatched bracket detected."] := by
  cases h : (balance s).balanced <;>
    simp [Rule.braceBalance, Rule.reporting, h, errorMessages, Diagnostic.isError]

theorem errorMessages_missingSemicolon (s : Text) :
    errorMessages (Rule.missingSemicolon.check s) =
      if lacksSemicolon s then ["Missing semicolon before \x7d detected."] else [] := by
  cases h : lacksSemicolon s <;>
    simp [Rule.missingSemicolon, Rule.reporting, h, errorMessages, Diagnostic.isError]

theorem errorMessages_declarationFormat (s : Text) :
    errorMessages (Rule.declarationFormat.check s) =
      if wellFormed s then [] else ["Invalid CSS property format detected."] := by
  cases h : wellFormed s <;>
    simp [Rule.declarationFormat, Rule.reporting, h, errorMessages, Diagnostic.isError]

/-- Only the typo check warns. -/
theorem validate_warnings (s : Text) :
    (validate s).warnings = (typos s).map fun entry =>
      "Property typo found: \"" ++ entry.wrong ++ "\" -> \"" ++ entry.right ++ "\"" := by
  have hreporting : ∀ name message holds t,
      warningMessages ((Rule.reporting name .error message holds).check t) = [] := by
    intro name message holds t
    cases h : holds t <;> simp [Rule.reporting, h, warningMessages, Diagnostic.isWarning]
  have happend : ∀ a b, warningMessages (a ++ b) = warningMessages a ++ warningMessages b := by
    intro a b
    simp [warningMessages]
  have htypos : warningMessages (Rule.propertyTypos.check s) = (typos s).map fun entry =>
      "Property typo found: \"" ++ entry.wrong ++ "\" -> \"" ++ entry.right ++ "\"" := by
    rw [warningMessages, List.filter_eq_self.mpr]
    · exact List.map_map
    · intro d hd
      obtain ⟨entry, -, rfl⟩ := List.mem_map.mp hd
      rfl
  simp [Validation.warnings, validate, validateWith, Rule.builtIn, happend, htypos,
    Rule.braceBalance, Rule.missingSemicolon, Rule.declarationFormat, hreporting]

theorem missingSemicolon_check_eq_nil_iff {s : Text} :
    Rule.missingSemicolon.check s = [] ↔ lacksSemicolon s = false := by
  cases h : lacksSemicolon s <;> simp [Rule.missingSemicolon, Rule.reporting, h]

theorem declarationFormat_check_eq_nil_iff {s : Text} :
    Rule.declarationFormat.check s = [] ↔ wellFormed s = true := by
  cases h : wellFormed s <;> simp [Rule.declarationFormat, Rule.reporting, h]

theorem isValid_iff_errors (v : Validation) : v.isValid = true ↔ v.errors = [] := by
  simp [Validation.isValid, Validation.errors, errorMessages, List.filter_eq_nil_iff]

/-- A text is valid if its braces match, no declaration lacks its semicolon and all declarations of
blocks have the right form. -/
theorem isValid_iff {s : Text} :
    (validate s).isValid = true ↔
      balance s = ⟨0, false⟩ ∧ lacksSemicolon s = false ∧ wellFormed s = true := by
  rw [isValid_iff_errors, validate_errors, errorMessages_braceBalance,
    errorMessages_missingSemicolon, errorMessages_declarationFormat, ← balanced_iff]
  cases (balance s).balanced <;> cases lacksSemicolon s <;> cases wellFormed s <;> simp

/-! ## What comes of a raw text -/

/-- A blank text has no comment. -/
theorem stripComments_of_isBlank {raw : Text} (h : Text.isBlank raw = true) :
    stripComments raw = raw := by
  refine Pattern.replace_of_not_occursIn (Pattern.occursIn_eq_false_iff.mpr ?_)
  intro pre c rest hraw
  have hc : c.isBlank = true := Text.isBlank_iff.mp h c (by simp [hraw])
  rw [comment]
  rintro _ rfl -
  exact absurd hc (by decide)

/-- The ways in which the work on a raw text can end, each with all that it returns. -/
theorem tidy_cases (raw : Text) :
    (Text.isBlank raw = true ∧ tidy raw = .ofKind .emptyInput) ∨
    (Text.isBlank raw = false ∧ (validate (stripComments raw)).isValid = true ∧
      tidy raw = ⟨.minified, compact (stripComments raw), [],
        (validate (stripComments raw)).warnings, []⟩) ∨
    (Text.isBlank raw = false ∧ (validate (stripComments raw)).isValid = false ∧
      (validate (corrected (stripComments raw))).isValid = true ∧
      tidy raw = ⟨.correctedAndMinified, compact (corrected (stripComments raw)),
        (correct (stripComments raw)).fixes,
        (validate (corrected (stripComments raw))).warnings, []⟩) ∨
    (Text.isBlank raw = false ∧ (validate (stripComments raw)).isValid = false ∧
      (validate (corrected (stripComments raw))).isValid = false ∧
      tidy raw = ⟨.rejected, [], [], [], (validate (stripComments raw)).errors⟩) := by
  cases hblank : Text.isBlank raw with
  | true => exact Or.inl ⟨rfl, by simp [tidy, tidy?, attempt, hblank]; rfl⟩
  | false =>
    cases hfirst : (validate (stripComments raw)).isValid with
    | true =>
      refine Or.inr (Or.inl ⟨rfl, rfl, ?_⟩)
      simp [tidy, tidy?, attempt, hblank, hfirst, Attempt.result]
    | false =>
      have hcorrect : (correct (stripComments raw)).text = corrected (stripComments raw) := rfl
      cases hsecond : (validate (corrected (stripComments raw))).isValid with
      | true =>
        refine Or.inr (Or.inr (Or.inl ⟨rfl, rfl, rfl, ?_⟩))
        simp [tidy, tidy?, attempt, hblank, hfirst, hcorrect, hsecond, Attempt.result]
      | false =>
        refine Or.inr (Or.inr (Or.inr ⟨rfl, rfl, rfl, ?_⟩))
        simp [tidy, tidy?, attempt, hblank, hfirst, hcorrect, hsecond, Attempt.result,
          Failure.outcome, Unsound.errors, Validation.errors, errorMessages]

/-- All that a corrected outcome returns. -/
theorem tidy_of_kind_corrected {raw : Text} (h : (tidy raw).kind = .correctedAndMinified) :
    tidy raw = ⟨.correctedAndMinified, compact (corrected (stripComments raw)),
      (correct (stripComments raw)).fixes,
      (validate (corrected (stripComments raw))).warnings, []⟩ := by
  rcases tidy_cases raw with ⟨-, houtcome⟩ | ⟨-, -, houtcome⟩ | ⟨-, -, -, houtcome⟩ |
    ⟨-, -, -, houtcome⟩
  · rw [houtcome] at h
    cases h
  · rw [houtcome] at h
    cases h
  · exact houtcome
  · rw [houtcome] at h
    cases h

/-- What a corrected outcome says about the text that was corrected. -/
theorem exists_of_kind_corrected {raw : Text} (h : (tidy raw).kind = .correctedAndMinified) :
    (validate (stripComments raw)).isValid = false ∧
      (validate (corrected (stripComments raw))).isValid = true ∧
      (tidy raw).output = compact (corrected (stripComments raw)) := by
  rcases tidy_cases raw with ⟨-, houtcome⟩ | ⟨-, -, houtcome⟩ | ⟨-, hinvalid, hvalid, houtcome⟩ |
    ⟨-, -, -, houtcome⟩
  · rw [houtcome] at h
    cases h
  · rw [houtcome] at h
    cases h
  · exact ⟨hinvalid, hvalid, by rw [houtcome]⟩
  · rw [houtcome] at h
    cases h

/-- What an outcome with a compact text says about the text that was compacted. -/
theorem exists_of_succeeded {raw : Text} (h : (tidy raw).succeeded = true) :
    ∃ s, (validate s).isValid = true ∧ (tidy raw).output = compact s := by
  rcases tidy_cases raw with ⟨-, houtcome⟩ | ⟨-, hvalid, houtcome⟩ | ⟨-, -, hvalid, houtcome⟩ |
    ⟨-, -, -, houtcome⟩
  · rw [houtcome] at h
    cases h
  · exact ⟨_, hvalid, by rw [houtcome]⟩
  · exact ⟨_, hvalid, by rw [houtcome]⟩
  · rw [houtcome] at h
    cases h

end TextTidy.Css
