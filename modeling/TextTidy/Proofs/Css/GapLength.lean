import TextTidy.Proofs.Css.Mark
import TextTidy.Text.Newline

/-!
# The lengths of gaps

What comes of a text does not depend on how long its gaps are, with one exception: a value that is
blank, which two blanks make and one does not.
-/

namespace TextTidy.Css

/-! ## Corrections -/

section

variable {s o : Text}

theorem closeBlocks_spaced (h : Spaced s o) : Spaced (closeBlocks s) (closeBlocks o) := by
  rw [closeBlocks, closeBlocks, closable, closable, h.balance_eq]
  split
  · exact h.append (.refl _)
  · exact h

theorem corrected_spaced (h : Spaced s o) (hblank : blankValues s = blankValues o) :
    Spaced (corrected s) (corrected o) :=
  closeBlocks_spaced (correctSpelling_spaced (insertSemicolons_spaced h hblank))

theorem mended_spaced (h : Spaced s o) (hblank : blankValues s = blankValues o) :
    Spaced (mended s) (mended o) := by
  rw [mended, mended, h.balance_eq]
  exact (insertSemicolons_spaced h hblank).append (.refl _)

theorem blankValues_append_replicate (s : Text) (n : Nat) :
    blankValues (s ++ List.replicate n (.char '}')) = blankValues s ++ List.replicate n false := by
  induction n generalizing s with
  | zero => rw [List.replicate_zero, List.append_nil, List.replicate_zero, List.append_nil]
  | succ n ih =>
    have hbraces : blankValues (List.replicate n (.char '}')) = [false] ++ List.replicate n false :=
      ih []
    rw [List.replicate_succ, blankValues_append_delimiter (by decide), hbraces]
    rfl

theorem blankValues_mended (h : Spaced s o) (hblank : blankValues s = blankValues o) :
    blankValues (mended s) = blankValues (mended o) := by
  rw [mended, mended, blankValues_append_replicate, blankValues_append_replicate,
    blankValues_insertSemicolons_spaced h hblank, h.balance_eq]

theorem isValid_corrected_spaced (h : Spaced s o) (hblank : blankValues s = blankValues o) :
    (validate (corrected s)).isValid = (validate (corrected o)).isValid := by
  have hmended := mended_spaced h hblank
  rw [Bool.eq_iff_iff, isValid_corrected_iff, isValid_corrected_iff, h.balance_eq,
    lacksSemicolon_spaced hmended (blankValues_mended h hblank), hmended.wellFormed_eq]

theorem validate_spaced (h : Spaced s o) (hblank : blankValues s = blankValues o) :
    validate s = validate o := by
  simp only [validate, validateWith, Rule.builtIn, Rule.braceBalance, Rule.missingSemicolon,
    Rule.propertyTypos, Rule.declarationFormat, Rule.reporting, List.append_nil, List.flatMap_cons,
    List.flatMap_nil, h.balance_eq, lacksSemicolon_spaced h hblank, typos_spaced h, h.wellFormed_eq]

theorem fixes_spaced (h : Spaced s o) (hblank : blankValues s = blankValues o) :
    fixes s = fixes o := by
  have hended := insertSemicolons_spaced h hblank
  have hkept : insertSemicolons s = s ↔ insertSemicolons o = o := by
    rw [insertSemicolons_eq_self_iff, insertSemicolons_eq_self_iff, lacksSemicolon_spaced h hblank]
  have hsemicolons : (if insertSemicolons s = s then ([] : List Fix) else [.semicolon]) =
      if insertSemicolons o = o then [] else [.semicolon] := by
    by_cases hsame : insertSemicolons o = o
    · rw [if_pos hsame, if_pos (hkept.mpr hsame)]
    · rw [if_neg hsame, if_neg (mt hkept.mp hsame)]
  have hclosable : closable (correctSpelling (insertSemicolons s)) =
      closable (correctSpelling (insertSemicolons o)) := by
    rw [closable, closable, (correctSpelling_spaced hended).balance_eq]
  unfold fixes
  dsimp only
  rw [hsemicolons, respelled_spaced hended, hclosable]

end

/-! ## What comes of a raw text -/

theorem tidy_eq (raw : Text) :
    tidy raw =
      if Text.isBlank raw then .ofKind .emptyInput
      else if (validate (stripComments raw)).isValid then
        ⟨.minified, compact (stripComments raw), [], (validate (stripComments raw)).warnings, []⟩
      else if (validate (corrected (stripComments raw))).isValid then
        ⟨.correctedAndMinified, compact (corrected (stripComments raw)),
          (fixes (stripComments raw)).map Fix.message,
          (validate (corrected (stripComments raw))).warnings, []⟩
      else ⟨.rejected, [], [], [], (validate (stripComments raw)).errors⟩ := by
  rcases tidy_cases raw with ⟨hblank, h⟩ | ⟨hblank, hvalid, h⟩ | ⟨hblank, hinvalid, hvalid, h⟩ |
    ⟨hblank, hinvalid, hinvalid', h⟩
  · rw [h, hblank, if_pos rfl]
  · rw [h, hblank, hvalid, if_neg Bool.false_ne_true, if_pos rfl]
  · rw [h, hblank, hinvalid, hvalid, if_neg Bool.false_ne_true, if_neg Bool.false_ne_true,
      if_pos rfl]
    rfl
  · rw [h, hblank, hinvalid, hinvalid', if_neg Bool.false_ne_true, if_neg Bool.false_ne_true,
      if_neg Bool.false_ne_true]

/-- Texts that collapse to the same text and have their blank values in the same runs have the same
outcome. -/
theorem tidy_eq_of_collapseBlanks {raw raw' : Text} (h : collapseBlanks raw = collapseBlanks raw')
    (hblank : blankValues (stripComments raw) = blankValues (stripComments raw')) :
    tidy raw = tidy raw' := by
  have hspaced := Spaced.of_collapseBlanks h
  have hstripped := stripComments_spaced hspaced
  have hcorrected := corrected_spaced hstripped hblank
  rw [tidy_eq, tidy_eq, hspaced.isBlank_eq, validate_spaced hstripped hblank,
    isValid_corrected_spaced hstripped hblank, hstripped.compact_eq, hcorrected.compact_eq,
    fixes_spaced hstripped hblank, validate_warnings (corrected _), typos_spaced hcorrected,
    ← validate_warnings]

/-! ## Line ends -/

theorem collapseBlanks_idempotent (s : Text) :
    collapseBlanks (collapseBlanks s) = collapseBlanks s := by
  have hspace : ∀ gap, spaceOf (spaceOf gap) = spaceOf gap := by
    intro gap
    cases gap <;> rfl
  induction s using Text.gap_induction with
  | blank gap hgap =>
    rw [collapseBlanks_of_isBlank hgap, collapseBlanks_of_isBlank (isBlank_spaceOf gap), hspace]
  | char gap c s hgap hc ih =>
    rw [collapseBlanks_gap hgap hc, collapseBlanks_gap (isBlank_spaceOf gap) hc, hspace, ih]

theorem collapseBlanks_blank {b : CodePoint} (hb : b.isBlank = true) (s : Text) :
    collapseBlanks (b :: s) = .char ' ' :: Text.trimStart (collapseBlanks s) := by
  rw [trimStart_collapseBlanks]
  rcases Text.exists_span CodePoint.isBlank s with hblank | ⟨gap, c, rest, rfl, hgap, hc⟩
  · have hgap := Text.isBlank_iff.mpr hblank
    rw [collapseBlanks_of_isBlank (Text.isBlank_cons.mpr ⟨hb, hgap⟩),
      Text.trimStart_of_isBlank hgap]
    rfl
  · have hgap := Text.isBlank_iff.mpr hgap
    rw [← List.cons_append, collapseBlanks_gap (Text.isBlank_cons.mpr ⟨hb, hgap⟩) hc,
      Text.trimStart_gap hgap hc, collapseBlanks_cons hc]
    rfl

/-- Which characters end the lines is lost when the gaps are collapsed. -/
theorem collapseBlanks_unifyLineEnds (s : Text) :
    collapseBlanks (Text.unifyLineEnds s) = collapseBlanks s := by
  have hfeed : (CodePoint.char '\n').isBlank = true := by decide
  have hreturn : (CodePoint.char '\r').isBlank = true := by decide
  induction s using Text.unifyLineEnds.induct with
  | case1 => rfl
  | case2 rest ih =>
    rw [Text.unifyLineEnds, collapseBlanks_blank hfeed, collapseBlanks_blank hreturn,
      collapseBlanks_blank hfeed, trimStart_blank (by decide), Text.trimStart_trimStart, ih]
  | case3 rest hne ih =>
    rw [Text.unifyLineEnds, collapseBlanks_blank hfeed, collapseBlanks_blank hreturn, ih]
    exact hne
  | case4 c rest hne hne' ih =>
    rw [Text.unifyLineEnds]
    · cases hc : c.isBlank with
      | true => rw [collapseBlanks_blank hc, collapseBlanks_blank hc, ih]
      | false => rw [collapseBlanks_cons hc, collapseBlanks_cons hc, ih]
    · exact hne
    · exact hne'

/-- A stylesheet with collapsed gaps comes to what it comes to with long ones, as long as collapsing
them leaves its blank values where they are. -/
theorem tidy_collapseBlanks {raw : Text}
    (hblank : blankValues (stripComments (collapseBlanks raw)) =
      blankValues (stripComments raw)) : tidy (collapseBlanks raw) = tidy raw :=
  tidy_eq_of_collapseBlanks (collapseBlanks_idempotent raw) hblank

/-- The same holds of line ends. -/
theorem tidy_unifyLineEnds {raw : Text}
    (hblank : blankValues (stripComments (Text.unifyLineEnds raw)) =
      blankValues (stripComments raw)) : tidy (Text.unifyLineEnds raw) = tidy raw :=
  tidy_eq_of_collapseBlanks (collapseBlanks_unifyLineEnds raw) hblank

/-! ## What a compact text tells of its source -/

theorem blankValues_of_isBlank {gap : Text} (hgap : Text.isBlank gap = true) :
    blankValues gap = [false] := by
  rw [blankValues_run (isRun_of_isBlank hgap), blankHead, headValue?_of_isBlank hgap]
  rfl

/-- A compact text has the marks of the mended text it comes from, which lacks no semicolon. -/
theorem marks_of_succeeded {raw : Text} (h : (tidy raw).succeeded = true) :
    lacksSemicolon (mended (stripComments raw)) = false ∧
      (tidy raw).output.filter isMark = marks (mended (stripComments raw)) := by
  rcases tidy_cases raw with ⟨-, houtcome⟩ | ⟨-, hvalid, houtcome⟩ | ⟨-, -, hvalid, houtcome⟩ |
    ⟨-, -, -, houtcome⟩
  · rw [houtcome] at h
    cases h
  · have houtput : (tidy raw).output = compact (stripComments raw) := by rw [houtcome]
    rw [houtput, mended_of_isValid hvalid, filter_compact]
    exact ⟨(isValid_iff.mp hvalid).2.1, rfl⟩
  · obtain ⟨hextra, hlacks, -⟩ := isValid_corrected_iff.mp hvalid
    have houtput : (tidy raw).output = compact (corrected (stripComments raw)) := by rw [houtcome]
    rw [houtput, corrected_eq_mended hextra, filter_compact, marks_correctSpelling]
    exact ⟨hlacks, rfl⟩
  · rw [houtcome] at h
    cases h

theorem tidy_emptyInput_iff {raw : Text} :
    (tidy raw).kind = .emptyInput ↔ Text.isBlank raw = true := by
  rcases tidy_cases raw with ⟨hblank, houtcome⟩ | ⟨hblank, -, houtcome⟩ |
    ⟨hblank, -, -, houtcome⟩ | ⟨hblank, -, -, houtcome⟩ <;>
    simp [houtcome, hblank, Outcome.ofKind]

theorem output_of_rejected {raw : Text} (h : (tidy raw).kind = .rejected) :
    (tidy raw).output = [] := by
  rcases tidy_cases raw with ⟨-, houtcome⟩ | ⟨-, -, houtcome⟩ | ⟨-, -, -, houtcome⟩ |
    ⟨-, -, -, houtcome⟩
  · rw [houtcome] at h
    cases h
  · rw [houtcome] at h
    cases h
  · rw [houtcome] at h
    cases h
  · rw [houtcome]

/-- Texts that collapse to the same text and are compacted to the same text have their blank values
in the same runs. -/
theorem blankValues_eq_of_output {raw raw' : Text} (h : collapseBlanks raw = collapseBlanks raw')
    (hraw : (tidy raw).succeeded = true) (hraw' : (tidy raw').succeeded = true)
    (houtput : (tidy raw).output = (tidy raw').output) :
    blankValues (stripComments raw) = blankValues (stripComments raw') := by
  have hstripped := stripComments_spaced (Spaced.of_collapseBlanks h)
  obtain ⟨hlacks, hmarks⟩ := marks_of_succeeded hraw
  obtain ⟨hlacks', hmarks'⟩ := marks_of_succeeded hraw'
  rw [houtput, hmarks'] at hmarks
  rw [mended] at hlacks hlacks' hmarks
  rw [mended, ← hstripped.balance_eq] at hmarks
  rw [← hstripped.balance_eq] at hlacks'
  exact blankValues_eq_of_marks hstripped hlacks hlacks' hmarks.symm

/-- Texts that collapse to the same text come to the same kind and the same compact text exactly if
their blank values are in the same runs once the comments are gone, or if both are rejected. -/
theorem tidy_gap_length_iff {raw raw' : Text} (h : collapseBlanks raw = collapseBlanks raw') :
    (tidy raw).kind = (tidy raw').kind ∧ (tidy raw).output = (tidy raw').output ↔
      blankValues (stripComments raw) = blankValues (stripComments raw') ∨
        (tidy raw).kind = .rejected ∧ (tidy raw').kind = .rejected := by
  constructor
  · rintro ⟨hkind, houtput⟩
    have hsucceeded : (tidy raw).succeeded = (tidy raw').succeeded := by
      rw [Outcome.succeeded, Outcome.succeeded, hkind]
    cases hraw : (tidy raw).kind with
    | emptyInput =>
      have hblank := tidy_emptyInput_iff.mp hraw
      have hblank' := tidy_emptyInput_iff.mp (hkind.symm.trans hraw)
      rw [stripComments_of_isBlank hblank, stripComments_of_isBlank hblank',
        blankValues_of_isBlank hblank, blankValues_of_isBlank hblank']
      exact Or.inl rfl
    | rejected => exact Or.inr ⟨rfl, hkind.symm.trans hraw⟩
    | minified =>
      have hdone : (tidy raw).succeeded = true := by rw [Outcome.succeeded, hraw]; rfl
      exact Or.inl (blankValues_eq_of_output h hdone (hsucceeded.symm.trans hdone) houtput)
    | correctedAndMinified =>
      have hdone : (tidy raw).succeeded = true := by rw [Outcome.succeeded, hraw]; rfl
      exact Or.inl (blankValues_eq_of_output h hdone (hsucceeded.symm.trans hdone) houtput)
  · rintro (hblank | ⟨hraw, hraw'⟩)
    · rw [tidy_eq_of_collapseBlanks h hblank]
      exact ⟨rfl, rfl⟩
    · rw [hraw, hraw', output_of_rejected hraw, output_of_rejected hraw']
      exact ⟨rfl, rfl⟩

/-- Line ends of two characters and of one, with a semicolon lacking before one of them. -/
theorem tidy_gap_length_line_ends :
    collapseBlanks (Text.ofString "x\r\n\x7b\r\na:b\r\nc:d;\r\n\x7d") =
        collapseBlanks (Text.ofString "x\n\x7b\na:b\nc:d;\n\x7d") ∧
      (tidy (Text.ofString "x\r\n\x7b\r\na:b\r\nc:d;\r\n\x7d")).kind =
        (tidy (Text.ofString "x\n\x7b\na:b\nc:d;\n\x7d")).kind ∧
      (tidy (Text.ofString "x\r\n\x7b\r\na:b\r\nc:d;\r\n\x7d")).output =
        (tidy (Text.ofString "x\n\x7b\na:b\nc:d;\n\x7d")).output := by
  have hcollapse : collapseBlanks (Text.ofString "x\r\n\x7b\r\na:b\r\nc:d;\r\n\x7d") =
      collapseBlanks (Text.ofString "x\n\x7b\na:b\nc:d;\n\x7d") := by decide
  exact ⟨hcollapse, (tidy_gap_length_iff hcollapse).mpr (Or.inl (by decide))⟩

/-- Two blanks behind a colon are a value and a gap, and one blank is only a gap. -/
theorem tidy_two_blanks_rejected :
    (tidy (Text.ofString "x\x7ba:  b:c;\x7d")).kind = .rejected ∧
      (tidy (collapseBlanks (Text.ofString "x\x7ba:  b:c;\x7d"))).kind = .minified ∧
      (tidy (collapseBlanks (Text.ofString "x\x7ba:  b:c;\x7d"))).output =
        Text.ofString "x\x7ba:b:c\x7d" :=
  ⟨by decide +kernel, by decide +kernel, by decide +kernel⟩

end TextTidy.Css
