import TextTidy.Proofs.Css.FixLog

/-!
# The account of a correction

The log names what was done to the raw text, in the order in which it was done, and the words that
were replaced in the order of the text. No pass takes back what an earlier one has done, as none
shortens a text; so the log is empty exactly if nothing was changed. What was accepted after a
correction has nothing left to correct.
-/

namespace TextTidy.Css

/-! ## Replaced words -/

/-- The second text is the first one with some misspelt words replaced; the list names them in
order. -/
inductive Respelt : Text → List Misspelling → Text → Prop where
  | nil : Respelt [] [] []
  | keep (c : CodePoint) {s o : Text} {words : List Misspelling} (h : Respelt s words o) :
      Respelt (c :: s) words (c :: o)
  | word {entry : Misspelling} (hmem : entry ∈ misspellings) {s o : Text}
      {words : List Misspelling} (h : Respelt s words o) :
      Respelt (Text.ofString entry.wrong ++ s) (entry :: words) (Text.ofString entry.right ++ o)

theorem Respelt.refl (s : Text) : Respelt s [] s := by
  induction s with
  | nil => exact .nil
  | cons c s ih => exact .keep c ih

theorem Respelt.append {s o : Text} {words : List Misspelling} (h : Respelt s words o) (t : Text) :
    Respelt (s ++ t) words (o ++ t) := by
  induction h with
  | nil => exact .refl t
  | keep c _ ih => exact .keep c ih
  | word hmem _ ih =>
    rw [List.append_assoc, List.append_assoc]
    exact .word hmem ih

/-- The spelling pass replaces the words it finds, and nothing else. -/
theorem respelt_respeltBehind (before : Option CodePoint) (s : Text) :
    Respelt s (respelledBehind before s) (respeltBehind before s) := by
  induction hlen : s.length using Nat.strong_induction_on generalizing s before with
  | _ n ih =>
    cases s with
    | nil => exact .nil
    | cons c rest =>
      rw [List.length_cons] at hlen
      cases htaken : misspelled before c rest with
      | none =>
        rw [respelledBehind, respeltBehind, Pattern.piecesFrom_of_none htaken]
        exact .keep c (ih rest.length (by omega) (some c) rest rfl)
      | some taken =>
        obtain ⟨hmem, hmore, behind, hs, -⟩ := misspelled_eq_some htaken
        have hdrop := drop_misspelled hs hmore
        have hshorter : behind.length < n := by
          have := congrArg List.length hdrop
          rw [List.length_drop] at this
          omega
        rw [respelledBehind, respeltBehind, Pattern.piecesFrom_of_some htaken,
          Pattern.piecesFrom_drop, hdrop, hs]
        exact .word hmem (ih behind.length hshorter _ behind rfl)

/-! ## The log and the text -/

theorem fixes_eq_nil_iff {s : Text} :
    fixes s = [] ↔ lacksSemicolon s = false ∧ respelled s = [] ∧ closable s = false := by
  rw [fixes_eq]
  cases lacksSemicolon s <;> cases closable s <;> simp

theorem length_closeBlocks (s : Text) :
    (closeBlocks s).length = s.length + if closable s then (balance s).missing else 0 := by
  rw [closeBlocks]
  split <;> simp

/-- A correction keeps a text only if there is nothing for any pass to do. -/
theorem corrected_eq_self_iff {s : Text} :
    corrected s = s ↔ lacksSemicolon s = false ∧ respelled s = [] ∧ closable s = false := by
  constructor
  · intro h
    have hended := length_insertSemicolons s
    have hspelt := length_correctSpelling (insertSemicolons s)
    have hclosed := length_closeBlocks (correctSpelling (insertSemicolons s))
    rw [← corrected, h] at hclosed
    have hlacks : lacksSemicolon s = false := by
      rw [← Bool.not_eq_true]
      intro hlacks
      have := length_lt_insertSemicolons hlacks
      omega
    have hopen : closable s = false := by
      rw [← Bool.not_eq_true, ← closable_correctSpelling_insertSemicolons]
      intro hopen
      have hmissing := (Bool.and_eq_true_iff.mp hopen).2
      rw [bne_iff_ne] at hmissing
      rw [if_pos hopen] at hclosed
      omega
    rw [corrected_eq_correctSpelling hlacks hopen, correctSpelling_eq_self_iff] at h
    exact ⟨hlacks, h, hopen⟩
  · rintro ⟨hlacks, hspelt, hopen⟩
    rw [corrected_eq_correctSpelling hlacks hopen, correctSpelling_eq_self_iff.mpr hspelt]

theorem respelt_corrected (s : Text) :
    Respelt (closeBlocks (insertSemicolons s)) (respelled s) (corrected s) := by
  have hwords := respelt_respeltBehind none (insertSemicolons s)
  have hrespelled : respelledBehind none (insertSemicolons s) = respelled s :=
    respelled_insertSemicolons s
  have hbalance := (correctSpelling_alike (insertSemicolons s)).balance_eq
  rw [hrespelled] at hwords
  rw [corrected, closeBlocks, closeBlocks, closable, closable, hbalance]
  split
  · exact hwords.append _
  · exact hwords

/-- The log of a correction is an exact account of it: the semicolons come first, if the rule for
them has found something, then one entry for each word that is replaced, in the order of the text,
and last the closing braces, if blocks are open and no brace is stray. The log is empty exactly if
the text was kept. -/
theorem correct_fixes_account (s : Text) :
    (correct s).fixes =
      ((if Rule.missingSemicolon.check s = [] then [] else [Fix.semicolon]) ++
        (respelled s).map Fix.spelling ++
        if 0 < (balance s).missing ∧ (balance s).extra = false then [Fix.openBlocks] else []).map
          Fix.message ∧
    Respelt (closeBlocks (insertSemicolons s)) (respelled s) (correct s).text ∧
    ((correct s).fixes = [] ↔ (correct s).text = s) := by
  refine ⟨?_, respelt_corrected s, ?_⟩
  · have hsemicolons : (if Rule.missingSemicolon.check s = [] then ([] : List Fix)
        else [.semicolon]) = if lacksSemicolon s then [.semicolon] else [] := by
      simp only [missingSemicolon_check_eq_nil_iff]
      cases lacksSemicolon s <;> rfl
    have hopen : 0 < (balance s).missing ∧ (balance s).extra = false ↔ closable s = true := by
      rw [closable, Bool.and_eq_true, bne_iff_ne, Nat.pos_iff_ne_zero, Bool.not_eq_true', and_comm]
    rw [hsemicolons, correct, fixes_eq]
    simp only [hopen]
  · rw [correct, List.map_eq_nil_iff, fixes_eq_nil_iff, corrected_eq_self_iff]

/-! ## Accepted corrections -/

/-- What is valid after a correction is kept by another one, which logs nothing. -/
theorem correct_accepted_fixed_point (s : Text) (h : (validate (correct s).text).isValid = true) :
    correct (correct s).text = ⟨(correct s).text, []⟩ := by
  obtain ⟨hbalance, hlacks, -⟩ := isValid_iff.mp h
  have hopen : closable (corrected s) = false := by
    have hclosed : balance (corrected s) = ⟨0, false⟩ := hbalance
    rw [closable, hclosed]
    rfl
  have hnothing : lacksSemicolon (corrected s) = false ∧ respelled (corrected s) = [] ∧
      closable (corrected s) = false := ⟨hlacks, respelled_corrected s, hopen⟩
  show correct (corrected s) = ⟨corrected s, []⟩
  rw [correct, corrected_eq_self_iff.mpr hnothing, fixes_eq_nil_iff.mpr hnothing]
  rfl

/-- A text that every pass has something to do in. -/
theorem correct_accepted_fixed_point_all_passes :
    (correct (Text.ofString "a\x7bcolr:b widht:c;d\x7bcolr:e;\x7d")).fixes.length = 5 ∧
      (validate (correct (Text.ofString "a\x7bcolr:b widht:c;d\x7bcolr:e;\x7d")).text).isValid =
        true ∧
      correct (correct (Text.ofString "a\x7bcolr:b widht:c;d\x7bcolr:e;\x7d")).text =
        ⟨(correct (Text.ofString "a\x7bcolr:b widht:c;d\x7bcolr:e;\x7d")).text, []⟩ := by
  have hvalid : (validate (correct
      (Text.ofString "a\x7bcolr:b widht:c;d\x7bcolr:e;\x7d")).text).isValid = true := by
    decide +kernel
  exact ⟨by decide +kernel, hvalid, correct_accepted_fixed_point _ hvalid⟩

end TextTidy.Css
