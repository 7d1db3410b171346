import TextTidy.Proofs.Css.Respelt

/-!
# What a correction logs

Each pass of a correction works on what the passes before it wrote, but leaves alone what the later
ones look at; so the log can be read off the raw text. The spelling pass neither makes an error nor
mends one, so a text that has become valid by its correction owes this to the other two passes, and
the log of the repairs is never empty.
-/

namespace TextTidy.Css

/-! ## The spelling pass -/

/-- The spelling pass leaves the errors as they are. -/
theorem errors_correctSpelling (s : Text) :
    (validate (correctSpelling s)).errors = (validate s).errors := by
  have halike := correctSpelling_alike s
  rw [validate_errors, validate_errors, errorMessages_braceBalance, errorMessages_braceBalance,
    errorMessages_missingSemicolon, errorMessages_missingSemicolon,
    errorMessages_declarationFormat, errorMessages_declarationFormat, halike.balance_eq,
    lacksSemicolon_correctSpelling, halike.wellFormed_eq]

theorem closable_correctSpelling_insertSemicolons (s : Text) :
    closable (correctSpelling (insertSemicolons s)) = closable s := by
  rw [closable, (correctSpelling_alike _).balance_eq, balance_insertSemicolons, closable]

/-! ## The log -/

/-- The log, read off the raw text. -/
theorem fixes_eq (s : Text) :
    fixes s = (if lacksSemicolon s then [.semicolon] else []) ++ (respelled s).map .spelling ++
      if closable s then [.openBlocks] else [] := by
  have hsemicolons : (if insertSemicolons s = s then ([] : List Fix) else [.semicolon]) =
      if lacksSemicolon s then [.semicolon] else [] := by
    cases hlacks : lacksSemicolon s with
    | false => rw [if_pos (insertSemicolons_eq_self_iff.mpr hlacks), if_neg Bool.false_ne_true]
    | true =>
      rw [if_pos rfl, if_neg]
      rw [insertSemicolons_eq_self_iff, hlacks]
      exact Bool.noConfusion
  rw [← hsemicolons, ← closable_correctSpelling_insertSemicolons, ← respelled_insertSemicolons]
  rfl

theorem semicolon_mem_fixes_iff {s : Text} :
    Fix.semicolon ∈ fixes s ↔ lacksSemicolon s = true := by
  rw [fixes_eq]
  cases lacksSemicolon s <;> cases closable s <;> simp

theorem openBlocks_mem_fixes_iff {s : Text} :
    Fix.openBlocks ∈ fixes s ↔ closable s = true := by
  rw [fixes_eq]
  cases lacksSemicolon s <;> cases closable s <;> simp

/-- A correction that writes neither semicolons nor closing braces only looks at spelling. -/
theorem corrected_eq_correctSpelling {s : Text} (hlacks : lacksSemicolon s = false)
    (hclosed : closable s = false) : corrected s = correctSpelling s := by
  rw [corrected, closeBlocks, closable_correctSpelling_insertSemicolons, hclosed,
    if_neg Bool.false_ne_true, insertSemicolons_eq_self_iff.mpr hlacks]

/-- A text that has become valid has got semicolons or closing braces. -/
theorem exists_structural_fix {s : Text} (hinvalid : (validate s).isValid = false)
    (hvalid : (validate (corrected s)).isValid = true) :
    Fix.semicolon ∈ fixes s ∨ Fix.openBlocks ∈ fixes s := by
  by_contra h
  rw [not_or, semicolon_mem_fixes_iff, openBlocks_mem_fixes_iff, Bool.not_eq_true,
    Bool.not_eq_true] at h
  rw [corrected_eq_correctSpelling h.1 h.2, isValid_iff_errors, errors_correctSpelling,
    ← isValid_iff_errors, hinvalid] at hvalid
  cases hvalid

/-- A repair is always structural and always logged: a text that is compact after a correction has
had its semicolons added or its blocks closed, and the log says so. Its status is made of the log
alone, as the log is not empty. Respelling never changes what is wrong with a text. -/
theorem tidy_repair_structural (raw : Text) :
    ((tidy raw).kind = .correctedAndMinified →
      (Fix.semicolon.message ∈ (tidy raw).fixLog ∨ Fix.openBlocks.message ∈ (tidy raw).fixLog) ∧
      (tidy raw).status =
        String.intercalate " | " ((tidy raw).fixLog ++ [Outcome.minifiedStatus])) ∧
    ∀ s, (validate (correctSpelling s)).errors = (validate s).errors := by
  refine ⟨fun hkind => ?_, errors_correctSpelling⟩
  obtain ⟨hinvalid, hvalid, -⟩ := exists_of_kind_corrected hkind
  have hlog : (tidy raw).fixLog = (fixes (stripComments raw)).map Fix.message := by
    rw [tidy_of_kind_corrected hkind, correct]
  have hstructural : Fix.semicolon.message ∈ (tidy raw).fixLog ∨
      Fix.openBlocks.message ∈ (tidy raw).fixLog := by
    rw [hlog]
    exact (exists_structural_fix hinvalid hvalid).imp List.mem_map_of_mem List.mem_map_of_mem
  refine ⟨hstructural, ?_⟩
  have hne : (tidy raw).fixLog.isEmpty = false := by
    rw [List.isEmpty_eq_false_iff_exists_mem]
    rcases hstructural with h | h
    · exact ⟨_, h⟩
    · exact ⟨_, h⟩
  simp only [Outcome.status, hkind, hne, Bool.false_eq_true, if_false]

/-- A text with both faults and two misspellings. -/
theorem tidy_repair_structural_all_passes :
    (tidy (Text.ofString "a\x7bcolr:b widht:c;d\x7bcolr:e;\x7d")).kind = .correctedAndMinified ∧
      Fix.semicolon.message ∈
        (tidy (Text.ofString "a\x7bcolr:b widht:c;d\x7bcolr:e;\x7d")).fixLog ∧
      (tidy (Text.ofString "a\x7bcolr:b widht:c;d\x7bcolr:e;\x7d")).status =
        String.intercalate " | "
          ((tidy (Text.ofString "a\x7bcolr:b widht:c;d\x7bcolr:e;\x7d")).fixLog ++
            [Outcome.minifiedStatus]) := by
  have hkind : (tidy (Text.ofString "a\x7bcolr:b widht:c;d\x7bcolr:e;\x7d")).kind =
      .correctedAndMinified := by
    decide +kernel
  have hrepair := (tidy_repair_structural (Text.ofString "a\x7bcolr:b widht:c;d\x7bcolr:e;\x7d")).1
    hkind
  exact ⟨hkind, by decide +kernel, hrepair.2⟩

end TextTidy.Css
