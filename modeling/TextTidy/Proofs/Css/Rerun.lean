import TextTidy.Proofs.Css.Condensed
import TextTidy.Proofs.Css.Idle
import TextTidy.Proofs.Css.Respelt

/-!
# Tidying a text again

Where no declaration runs on into the next one, the semicolon pass writes semicolons only between
the last declaration of a block and its closing brace. Compaction takes exactly these away again, so
a compact text that needs a correction is what comes of it.
-/

namespace TextTidy.Css

/-! ## The semicolon pass where no declaration runs on -/

/-- Where there is no closing brace, only a declaration that runs on can lack its semicolon. -/
theorem runsOn_of_lacksSemicolon {s : Text} (hs : .char '}' ∉ s) (h : lacksSemicolon s = true) :
    RunsOn s := by
  obtain ⟨pre, decl, more, rfl, hdecl, hends⟩ := lacksSemicolon_iff.mp h
  rw [endsDeclaration_eq, Bool.or_eq_true_iff] at hends
  rcases hends with hnext | hcloses
  · exact ⟨pre, decl, more, rfl, hdecl, hnext⟩
  · obtain ⟨gap, rest, rfl, -⟩ := closes_iff.mp hcloses
    simp at hs

theorem not_mem_of_isRun {run : Text} (hrun : IsRun run) : .char '}' ∉ run := by
  intro hmem
  exact absurd (hrun _ hmem) (by decide)

/-- A declaration that runs on within a run does so whatever is behind the run. -/
theorem runsOn_of_concat {run : Text} {d : CodePoint} (hd : isDelimiter d = true)
    (h : RunsOn (run ++ [d])) (rest : Text) : RunsOn (run ++ rest) := by
  obtain ⟨pre, decl, more, hs, hdecl, hnext⟩ := h
  obtain ⟨behind, rfl, rfl⟩ := exists_of_concat_eq hd hdecl.isRun hdecl.ne_nil hs
  rw [nextProperty_append_delimiter hd] at hnext
  exact ⟨pre, decl, behind ++ rest, by simp, hdecl, nextProperty_append hnext rest⟩

/-- The semicolon pass on one run with its delimiter, where no declaration runs on. -/
theorem insertSemicolons_run_of_not_runsOn {run rest : Text} {d : CodePoint} (hrun : IsRun run)
    (hd : isDelimiter d = true) (h : ¬RunsOn (run ++ d :: rest)) :
    (lacksSemicolon (run ++ [d]) = false ∧ insertSemicolons (run ++ [d]) = run ++ [d]) ∨
    ∃ pre decl, run = pre ++ decl ∧ IsDeclaration decl ∧ d = .char '}' ∧
      insertSemicolons (run ++ [d]) = run ++ [.char ';', d] := by
  rcases insertSemicolons_run_cases hrun hd with hsame | hended |
    ⟨pre, decl, more, rfl, hdecl, hnext, -⟩
  · exact Or.inl hsame
  · exact Or.inr hended
  · exact absurd ⟨pre, decl, more ++ d :: rest, by simp, hdecl, nextProperty_append hnext _⟩ h

/-- Induction along the semicolon pass where no declaration runs on. -/
theorem insertSemicolons_ends {R : Text → Text → Prop}
    (last : ∀ run, IsRun run → lacksSemicolon run = false → R run run)
    (same : ∀ run d {s o}, IsRun run → isDelimiter d = true →
      lacksSemicolon (run ++ [d]) = false → R s o → R (run ++ d :: s) (run ++ d :: o))
    (ended : ∀ pre decl {s o}, IsRun (pre ++ decl) → IsDeclaration decl →
      lacksSemicolon (pre ++ decl ++ [.char ';']) = false → R s o →
      R (pre ++ decl ++ .char '}' :: s) (pre ++ decl ++ .char ';' :: .char '}' :: o))
    {s : Text} (h : ¬RunsOn s) : R s (insertSemicolons s) := by
  induction s using run_induction with
  | last run hrun =>
    have hlacks : lacksSemicolon run = false := by
      rw [← Bool.not_eq_true]
      exact fun hlacks => h (runsOn_of_lacksSemicolon (not_mem_of_isRun hrun) hlacks)
    rw [insertSemicolons_eq_self_iff.mpr hlacks]
    exact last run hrun hlacks
  | more run d rest hrun hd ih =>
    have hrest : ¬RunsOn rest := by
      intro hrest
      have := hrest.append (run ++ [d])
      rw [List.append_assoc] at this
      exact h this
    rw [insertSemicolons_append hd]
    rcases insertSemicolons_run_of_not_runsOn hrun hd h with ⟨hlacks, hsame⟩ |
      ⟨pre, decl, rfl, hdecl, rfl, hcut⟩
    · rw [hsame, List.append_assoc]
      exact same run d hrun hd hlacks (ih hrest)
    · have hlacks : lacksSemicolon (pre ++ decl ++ [.char ';']) = false := by
        rw [← Bool.not_eq_true]
        intro hlacks
        have hmem : .char '}' ∉ pre ++ decl ++ [.char ';'] := by
          rw [List.mem_append]
          rintro (hmem | hmem)
          · exact not_mem_of_isRun hrun hmem
          · exact absurd hmem (by decide)
        exact h (runsOn_of_concat (by decide) (runsOn_of_lacksSemicolon hmem hlacks) _)
      have hassoc : pre ++ decl ++ [.char ';', .char '}'] ++ insertSemicolons rest =
          pre ++ decl ++ .char ';' :: .char '}' :: insertSemicolons rest := by simp
      rw [hcut, hassoc]
      exact ended pre decl hrun hdecl hlacks (ih hrest)

/-! ## What a second correction does -/

theorem insertSemicolons_idleEnded {s : Text} (h : ¬RunsOn s) :
    IdleEnded s (insertSemicolons s) := by
  refine insertSemicolons_ends ?_ ?_ ?_ h
  · intro run _ _
    exact .refl run
  · intro run d s o hrun hd _ ih
    exact .same hrun hd ih
  · intro pre decl s o hrun hdecl _ ih
    exact .ended hrun (hdecl.not_isBlank_append pre) ih

theorem insertSemicolons_alike {s : Text} (h : ¬RunsOn s) : Alike (insertSemicolons s) s :=
  (insertSemicolons_idleEnded h).alike

theorem lacksSemicolon_insertSemicolons {s : Text} (h : ¬RunsOn s) :
    lacksSemicolon (insertSemicolons s) = false := by
  refine insertSemicolons_ends (R := fun _ o => lacksSemicolon o = false) ?_ ?_ ?_ h
  · intro run _ hlacks
    exact hlacks
  · intro run d s o _ hd hlacks ih
    rw [lacksSemicolon_append hd, hlacks, ih]
    rfl
  · intro pre decl s o _ _ hlacks ih
    have hbrace : lacksSemicolon (.char '}' :: o) = (lacksSemicolon [.char '}'] ||
        lacksSemicolon o) := lacksSemicolon_append (by decide) [] o
    have hsingle : lacksSemicolon [.char '}'] = false := by decide
    rw [lacksSemicolon_append (by decide), hlacks, hbrace, hsingle, ih]
    rfl

/-! ## What a second compaction does -/

/-- The semicolons that the pass writes are idle. -/
theorem compact_insertSemicolons {s : Text} (h : ¬RunsOn s) :
    compact (insertSemicolons s) = compact s :=
  (insertSemicolons_idleEnded h).compact_eq

/-! ## Compact texts once more -/

/-- A correction of a text whose braces match and in which no word is misspelt only ends
declarations. -/
theorem corrected_of_spelt {s : Text} (hbalance : balance s = ⟨0, false⟩)
    (hspelt : respelled s = []) : corrected s = insertSemicolons s := by
  have hspelling : correctSpelling (insertSemicolons s) = insertSemicolons s := by
    rw [correctSpelling_eq_self_iff, respelled_insertSemicolons, hspelt]
  rw [corrected, hspelling, closeBlocks_of_balanced]
  rw [balance_insertSemicolons, hbalance]

theorem isValid_insertSemicolons {s : Text} (hbalance : balance s = ⟨0, false⟩)
    (hformat : wellFormed s = true) (h : ¬RunsOn s) :
    (validate (insertSemicolons s)).isValid = true := by
  refine isValid_iff.mpr ⟨?_, lacksSemicolon_insertSemicolons h, ?_⟩
  · rw [balance_insertSemicolons, hbalance]
  · rw [← (insertSemicolons_alike h).wellFormed_eq, hformat]

theorem not_isBlank_compact {s : Text} (h : compact s ≠ []) :
    Text.isBlank (compact s) = false := by
  obtain ⟨c, rest, hs⟩ := List.exists_cons_of_ne_nil h
  have hc : c.isBlank = false := by
    rw [compact_eq_squeezeFrom] at hs
    exact squeezeFrom_head (congrArg List.head? hs)
  rw [hs, Text.isBlank, List.all_cons, hc, Bool.false_and]

/-- What comes of a raw text comes of itself again, if it has no comment, no semicolon that is still
idle and no misspelt word. -/
theorem tidy_output_stable (raw : Text) (h : (tidy raw).succeeded = true)
    (hne : (tidy raw).output ≠ []) (hcomments : stripComments (tidy raw).output = (tidy raw).output)
    (hidle : Text.contains (tidy raw).output (Text.ofString ";\x7d") = false)
    (hspelt : respelled (tidy raw).output = []) :
    (tidy (tidy raw).output).succeeded = true ∧
      (tidy (tidy raw).output).output = (tidy raw).output := by
  obtain ⟨s, hvalid, houtput⟩ := exists_of_succeeded h
  obtain ⟨hbalance, hformat, hruns⟩ := compact_sound hvalid
  rw [houtput] at hne hcomments hidle hspelt ⊢
  have hcompact := compact_idempotent hidle
  have hcorrected := corrected_of_spelt hbalance hspelt
  have hrepaired := isValid_insertSemicolons hbalance hformat hruns
  rcases tidy_cases (compact s) with ⟨hblank, -⟩ | ⟨-, -, houtcome⟩ | ⟨-, -, -, houtcome⟩ |
    ⟨-, -, hinvalid, -⟩
  · rw [not_isBlank_compact hne] at hblank
    cases hblank
  · have hsecond : (tidy (compact s)).output = compact (stripComments (compact s)) := by
      rw [houtcome]
    rw [hsecond, hcomments]
    exact ⟨by rw [houtcome]; rfl, hcompact⟩
  · have hsecond : (tidy (compact s)).output =
        compact (corrected (stripComments (compact s))) := by
      rw [houtcome]
    rw [hsecond, hcomments, hcorrected, compact_insertSemicolons hruns]
    exact ⟨by rw [houtcome]; rfl, hcompact⟩
  · rw [hcomments, hcorrected, hrepaired] at hinvalid
    cases hinvalid

/-- A compact text whose block gets its last semicolon back and loses it again. -/
theorem tidy_output_stable_without_last_semicolon :
    (tidy (Text.ofString "a\x7bb:c;d:e;\x7d")).output = Text.ofString "a\x7bb:c;d:e\x7d" ∧
      (tidy (tidy (Text.ofString "a\x7bb:c;d:e;\x7d")).output).kind = .correctedAndMinified ∧
      (tidy (tidy (Text.ofString "a\x7bb:c;d:e;\x7d")).output).output =
        (tidy (Text.ofString "a\x7bb:c;d:e;\x7d")).output := by
  have hstable := tidy_output_stable (Text.ofString "a\x7bb:c;d:e;\x7d") (by decide +kernel)
    (by decide +kernel) (by decide +kernel) (by decide +kernel) (by decide +kernel)
  exact ⟨by decide +kernel, by decide +kernel, hstable.2⟩

end TextTidy.Css
