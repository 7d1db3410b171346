import TextTidy.Proofs.Css.Spelling
import TextTidy.Proofs.Css.Verdict

/-!
# What a correction cannot repair

A correction leaves the braces of a text in place and only cuts parts of blocks in two. So it never
takes a stray closing brace away, and it never makes a malformed block well-formed.
-/

namespace TextTidy.Css

/-! ## Blocks with semicolons added -/

/-- A sound part that has its colon stays sound when it goes on. -/
theorem partOk_append {part : Text} (hcolon : .char ':' ∈ part) (h : partOk part = true)
    (more : Text) : partOk (part ++ more) = true := by
  rcases exists_colon part with hnone | ⟨name, value, rfl, hname⟩
  · exact absurd hcolon hnone
  · have hnot : Text.isBlank (name ++ .char ':' :: value) = false := by
      have : (CodePoint.char ':').isBlank = false := by decide
      simp [Text.isBlank, this]
    rw [partOk, hnot, Bool.false_or, malformed_of_colon hname] at h
    rw [partOk, List.append_assoc, List.cons_append, malformed_of_colon hname]
    simp only [Text.isBlank, List.all_append, Bool.not_eq_true', Bool.or_eq_false_iff] at h ⊢
    rw [h.1, h.2]
    simp

theorem wellFormedFrom_run (reading : Reading) {run : Text} (hrun : IsRun run) :
    wellFormedFrom reading run = true := by
  cases reading with
  | outside =>
    have := wellFormedFrom_outside_run hrun []
    rwa [List.append_nil, wellFormedFrom] at this
  | block sound part =>
    have := wellFormedFrom_block_run hrun sound part []
    rwa [List.append_nil, wellFormedFrom] at this

/-- What a reader finds well-formed in the second text it finds so in the first, also when it has
met fewer faults in the block that it stands in. -/
def SoundBefore (s o : Text) : Prop :=
  (wellFormedFrom .outside o = true → wellFormedFrom .outside s = true) ∧
  ∀ sound sound', (sound = true → sound' = true) →
    wellFormedFrom (.block sound []) o = true → wellFormedFrom (.block sound' []) s = true

theorem SoundBefore.outside {s o : Text} {d : CodePoint} (hd : isDelimiter d = true)
    (h : SoundBefore s o) (ho : wellFormedFrom .outside (d :: o) = true) :
    wellFormedFrom .outside (d :: s) = true := by
  rcases isDelimiter_iff.mp hd with rfl | rfl | rfl
  · exact h.1 ho
  · exact h.2 true true id ho
  · exact h.1 ho

theorem SoundBefore.block {s o : Text} {d : CodePoint} (hd : isDelimiter d = true)
    (h : SoundBefore s o) {sound sound' : Bool} {part part' : Text}
    (himp : sound = true → partOk part = true → sound' = true ∧ partOk part' = true)
    (ho : wellFormedFrom (.block sound part) (d :: o) = true) :
    wellFormedFrom (.block sound' part') (d :: s) = true := by
  rcases isDelimiter_iff.mp hd with rfl | rfl | rfl
  · refine h.2 (sound && partOk part) (sound' && partOk part') ?_ ho
    simpa using himp
  · exact h.2 true true id ho
  · simp only [wellFormedFrom, Bool.and_eq_true] at ho ⊢
    exact ⟨himp ho.1.1 ho.1.2, h.1 ho.2⟩

/-- Whatever the semicolon pass made well-formed has been so before: a part that it has cut in two
is sound if its front half is. -/
theorem soundBefore_insertSemicolons (s : Text) : SoundBefore s (insertSemicolons s) := by
  induction s using run_induction with
  | last run hrun =>
    exact ⟨fun _ => wellFormedFrom_run _ hrun, fun _ _ _ _ => wellFormedFrom_run _ hrun⟩
  | more run d rest hrun hd ih =>
    rw [insertSemicolons_append hd]
    rcases insertSemicolons_run hrun hd with ⟨-, hsame⟩ | ⟨pre, decl, more, rfl, hdecl, -, -, hcut⟩
    · rw [hsame, List.append_assoc, List.singleton_append]
      constructor
      · rw [wellFormedFrom_outside_run hrun, wellFormedFrom_outside_run hrun]
        exact ih.outside hd
      · intro sound sound' himp
        rw [wellFormedFrom_block_run hrun, wellFormedFrom_block_run hrun]
        exact ih.block hd fun hsound hpart => ⟨himp hsound, hpart⟩
    · obtain ⟨hfront, hmore⟩ := isRun_append.mp hrun
      have hassoc : pre ++ decl ++ CodePoint.char ';' :: (more ++ [d]) ++ insertSemicolons rest =
          pre ++ decl ++ .char ';' :: (more ++ d :: insertSemicolons rest) := by simp
      rw [hcut, hassoc]
      constructor
      · rw [wellFormedFrom_outside_run hrun, wellFormedFrom_outside_run hfront,
          wellFormedFrom_outside_cons (by decide), wellFormedFrom_outside_run hmore]
        exact ih.outside hd
      · intro sound sound' himp
        rw [wellFormedFrom_block_run hrun, wellFormedFrom_block_run hfront, wellFormedFrom,
          wellFormedFrom_block_run hmore]
        refine ih.block hd fun hsound _ => ?_
        obtain ⟨hsound, hpart⟩ := Bool.and_eq_true_iff.mp hsound
        exact ⟨himp hsound,
          partOk_append (List.mem_append_right pre hdecl.colon_mem) hpart more⟩

theorem wellFormed_of_insertSemicolons {s : Text} (h : wellFormed (insertSemicolons s) = true) :
    wellFormed s = true := by
  rw [wellFormed_eq_wellFormedFrom] at h ⊢
  exact (soundBefore_insertSemicolons s).1 h

/-! ## Blocks with closing braces added -/

/-- The blocks that end in the front part of a text are blocks of the text. -/
theorem wellFormedFrom_of_append {reading : Reading} {s more : Text}
    (h : wellFormedFrom reading (s ++ more) = true) : wellFormedFrom reading s = true := by
  induction s generalizing reading with
  | nil => cases reading <;> rfl
  | cons c s ih =>
    by_cases hopen : c = .char '{'
    · subst hopen
      cases reading <;> exact ih h
    · cases reading with
      | outside =>
        rw [List.cons_append, wellFormedFrom_outside_cons hopen] at h
        rw [wellFormedFrom_outside_cons hopen]
        exact ih h
      | block sound part =>
        cases hc : isDelimiter c with
        | false =>
          rw [List.cons_append, wellFormedFrom_block_cons hc] at h
          rw [wellFormedFrom_block_cons hc]
          exact ih h
        | true =>
          rcases isDelimiter_iff.mp hc with rfl | rfl | rfl
          · exact ih h
          · exact absurd rfl hopen
          · simp only [List.cons_append, wellFormedFrom, Bool.and_eq_true] at h ⊢
            exact ⟨h.1, ih h.2⟩

theorem wellFormed_of_closeBlocks {s : Text} (h : wellFormed (closeBlocks s) = true) :
    wellFormed s = true := by
  cases hextra : (balance s).extra with
  | true => rwa [closeBlocks_of_extra hextra] at h
  | false =>
    rw [closeBlocks_of_not_extra hextra, wellFormed_eq_wellFormedFrom] at h
    rw [wellFormed_eq_wellFormedFrom]
    exact wellFormedFrom_of_append h

/-! ## Corrected texts -/

theorem wellFormed_of_corrected {s : Text} (h : wellFormed (corrected s) = true) :
    wellFormed s = true := by
  have hspelt := wellFormed_of_closeBlocks h
  rw [(correctSpelling_alike _).wellFormed_eq] at hspelt
  exact wellFormed_of_insertSemicolons hspelt

/-- A stray closing brace is still there after a correction. -/
theorem extra_corrected (s : Text) : (balance (corrected s)).extra = (balance s).extra := by
  have hbalance : balance (correctSpelling (insertSemicolons s)) = balance s := by
    rw [(correctSpelling_alike _).balance_eq, balance_insertSemicolons]
  cases hextra : (balance s).extra with
  | true => rw [corrected, closeBlocks_of_extra (by rw [hbalance, hextra]), hbalance, hextra]
  | false => rw [corrected, balance_closeBlocks (by rw [hbalance, hextra])]

/-- Only the faults that a correction repairs are in a text that has become valid by it. -/
theorem repairable_of_isValid_corrected {s : Text} (h : (validate (corrected s)).isValid = true) :
    (balance s).extra = false ∧ wellFormed s = true := by
  obtain ⟨hbalance, -, hformat⟩ := isValid_iff.mp h
  rw [← extra_corrected, hbalance]
  exact ⟨rfl, wellFormed_of_corrected hformat⟩

theorem repairable_of_isValid {s : Text} (h : (validate s).isValid = true) :
    (balance s).extra = false ∧ wellFormed s = true := by
  obtain ⟨hbalance, -, hformat⟩ := isValid_iff.mp h
  rw [hbalance]
  exact ⟨rfl, hformat⟩

theorem repairable_of_isBlank {s : Text} (h : Text.isBlank s = true) :
    (balance s).extra = false ∧ wellFormed s = true := by
  have hrun := isRun_of_isBlank h
  have hbalance := balanceFrom_braceless (.of_isRun hrun) 0 false []
  rw [List.append_nil] at hbalance
  rw [balance, hbalance, wellFormed_eq_wellFormedFrom]
  exact ⟨rfl, wellFormedFrom_run .outside hrun⟩

/-- A text that is not rejected is free of the faults that no correction repairs. -/
theorem tidy_of_unrepairable {raw : Text}
    (h : ¬((balance (stripComments raw)).extra = false ∧ wellFormed (stripComments raw) = true)) :
    tidy raw = ⟨.rejected, [], [], [], (validate (stripComments raw)).errors⟩ := by
  rcases tidy_cases raw with ⟨hblank, -⟩ | ⟨-, hvalid, -⟩ | ⟨-, -, hvalid, -⟩ | ⟨-, -, -, houtcome⟩
  · rw [stripComments_of_isBlank hblank] at h
    exact absurd (repairable_of_isBlank hblank) h
  · exact absurd (repairable_of_isValid hvalid) h
  · exact absurd (repairable_of_isValid_corrected hvalid) h
  · exact houtcome

theorem errors_of_repairable {s : Text} (hextra : (balance s).extra = false)
    (hformat : wellFormed s = true) :
    (validate s).errors =
      (if (balance s).missing = 0 then [] else ["Unmatched bracket detected."]) ++
      (if lacksSemicolon s = true then ["Missing semicolon before \x7d detected."] else []) := by
  rw [validate_errors, errorMessages_braceBalance, errorMessages_missingSemicolon,
    errorMessages_declarationFormat, hformat, Balance.balanced, hextra]
  simp

/-- A raw text with a stray closing brace or a malformed block is rejected, with the errors of its
first validation and nothing else. A raw text that needed its correction had no other errors than
lacking semicolons and open blocks. -/
theorem tidy_rejects_unrepairable (raw : Text) :
    ((balance (stripComments raw)).extra = true ∨
        Rule.declarationFormat.check (stripComments raw) ≠ [] →
      tidy raw = ⟨.rejected, [], [], [], (validate (stripComments raw)).errors⟩) ∧
    ((tidy raw).kind = .correctedAndMinified →
      (balance (stripComments raw)).extra = false ∧
      Rule.declarationFormat.check (stripComments raw) = [] ∧
      (validate (stripComments raw)).errors ≠ [] ∧
      (validate (stripComments raw)).errors =
        (if (balance (stripComments raw)).missing = 0 then []
          else ["Unmatched bracket detected."]) ++
        (if lacksSemicolon (stripComments raw) = true then
          ["Missing semicolon before \x7d detected."] else [])) := by
  constructor
  · intro hfault
    refine tidy_of_unrepairable ?_
    rintro ⟨hextra, hformat⟩
    rcases hfault with h | h
    · rw [hextra] at h
      cases h
    · exact h (declarationFormat_check_eq_nil_iff.mpr hformat)
  · intro hkind
    obtain ⟨hinvalid, hvalid, -⟩ := exists_of_kind_corrected hkind
    obtain ⟨hextra, hformat⟩ := repairable_of_isValid_corrected hvalid
    refine ⟨hextra, declarationFormat_check_eq_nil_iff.mpr hformat, ?_,
      errors_of_repairable hextra hformat⟩
    rw [ne_eq, ← isValid_iff_errors, hinvalid]
    exact Bool.false_ne_true

/-- A stray closing brace, and a block that lacks a semicolon and its end. -/
theorem tidy_rejects_stray_brace_not_open_block :
    tidy (Text.ofString "a\x7b\x7d\x7d") =
        ⟨.rejected, [], [], [], ["Unmatched bracket detected."]⟩ ∧
      (tidy (Text.ofString "a\x7bb:c d:e;")).kind = .correctedAndMinified ∧
      (balance (Text.ofString "a\x7bb:c d:e;")).extra = false := by
  have hstray := (tidy_rejects_unrepairable (Text.ofString "a\x7b\x7d\x7d")).1
    (Or.inl (by decide))
  have hkind : (tidy (Text.ofString "a\x7bb:c d:e;")).kind = .correctedAndMinified := by
    decide +kernel
  have hopen := (tidy_rejects_unrepairable (Text.ofString "a\x7bb:c d:e;")).2 hkind
  exact ⟨hstray.trans (by decide), hkind, hopen.1⟩

end TextTidy.Css
