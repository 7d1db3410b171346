import TextTidy.Proofs.Css.Comment
import TextTidy.Proofs.Css.Lacking
import TextTidy.Proofs.Css.Sequence

/-!
# Stylesheets without their last closing braces

A correction closes the blocks that are open at the end, but not before the semicolon pass is over.
So a text without its last closing braces is repaired as the complete one is, unless it ends in the
middle of a declaration: the pass that would end the declaration does not see the brace yet, and
behind the brace the declaration lacks its semicolon.
-/

namespace TextTidy.Css

/-! ## Texts that end in a declaration -/

/-- Whether blanks and a colon come next, and then a value that the end of the text ends. -/
def valueAtEnd (s : Text) : Bool :=
  match Text.trimStart s with
  | .char ':' :: value => !value.isEmpty && value.all (!isDelimiter ·)
  | _ => false

/-- Whether a text ends in a declaration, with its name, its colon and something of its value. -/
def endsInDeclaration : Text → Bool
  | [] => false
  | c :: rest => (isNameChar c && valueAtEnd rest) || endsInDeclaration rest

theorem valueAtEnd_iff {s : Text} :
    valueAtEnd s = true ↔
      ∃ gap value, s = gap ++ .char ':' :: value ∧ Text.isBlank gap = true ∧ value ≠ [] ∧
        IsRun value := by
  have hrun : ∀ value : Text, value.all (!isDelimiter ·) = true ↔ IsRun value := by
    intro value
    simp [IsRun]
  constructor
  · intro h
    unfold valueAtEnd at h
    split at h
    · rename_i value hvalue
      rw [Bool.and_eq_true, hrun] at h
      refine ⟨Text.leadingBlanks s, value, ?_, Text.isBlank_leadingBlanks s, by simpa using h.1,
        h.2⟩
      rw [← hvalue, Text.leadingBlanks_append_trimStart]
    · cases h
  · rintro ⟨gap, value, rfl, hgap, hne, hvalue⟩
    rw [valueAtEnd, Text.trimStart_gap hgap (by decide)]
    simpa [hne] using (hrun value).mpr hvalue

theorem endsInDeclaration_iff {s : Text} :
    endsInDeclaration s = true ↔ ∃ pre decl, s = pre ++ decl ∧ IsDeclaration decl := by
  induction s with
  | nil =>
    constructor
    · intro h
      cases h
    · rintro ⟨pre, decl, h, hdecl⟩
      exact absurd (List.append_eq_nil_iff.mp h.symm).2 hdecl.ne_nil
  | cons c s ih =>
    rw [endsInDeclaration, Bool.or_eq_true, Bool.and_eq_true, ih]
    constructor
    · rintro (⟨hc, hvalue⟩ | ⟨pre, decl, rfl, hdecl⟩)
      · obtain ⟨gap, value, rfl, hgap, hne, hrun⟩ := valueAtEnd_iff.mp hvalue
        refine ⟨[], [c] ++ (gap ++ .char ':' :: value), rfl, ?_⟩
        exact .mk (List.cons_ne_nil c []) (by simpa using hc) hgap hne hrun
      · exact ⟨c :: pre, decl, rfl, hdecl⟩
    · rintro ⟨pre, decl, hs, hdecl⟩
      cases pre with
      | cons x pre =>
        obtain ⟨rfl, rfl⟩ := List.cons.inj hs
        exact Or.inr ⟨pre, decl, rfl, hdecl⟩
      | nil =>
        obtain ⟨hname, hchars, hgap, hne, hrun⟩ := hdecl
        rename_i name gap value
        cases name with
        | nil => exact absurd rfl hname
        | cons x name =>
          obtain ⟨rfl, rfl⟩ := List.cons.inj hs
          rw [List.forall_mem_cons] at hchars
          cases name with
          | nil =>
            exact Or.inl ⟨hchars.1, valueAtEnd_iff.mpr ⟨gap, value, rfl, hgap, hne, hrun⟩⟩
          | cons y name =>
            -- the rest of the name leads to the same value
            refine Or.inr ⟨[], _, rfl, ?_⟩
            exact .mk (List.cons_ne_nil y name) hchars.2 hgap hne hrun

theorem endsInDeclaration_append_delimiter {d : CodePoint} (hd : isDelimiter d = true)
    (s rest : Text) : endsInDeclaration (s ++ d :: rest) = endsInDeclaration rest := by
  rw [Bool.eq_iff_iff, endsInDeclaration_iff, endsInDeclaration_iff]
  constructor
  · rintro ⟨pre, decl, hs, hdecl⟩
    rcases List.append_eq_append_iff.mp hs with ⟨front, -, hrest⟩ | ⟨front, -, hrest⟩
    · cases front with
      | nil =>
        rw [List.nil_append] at hrest
        exact absurd (hdecl.isRun d (by simp [← hrest])) (by simp [hd])
      | cons x front =>
        obtain ⟨-, rfl⟩ := List.cons.inj hrest
        exact ⟨front, decl, rfl, hdecl⟩
    · exact absurd (hdecl.isRun d (by rw [hrest]; simp)) (by simp [hd])
  · rintro ⟨pre, decl, rfl, hdecl⟩
    exact ⟨s ++ d :: pre, decl, by simp, hdecl⟩

/-! ## The semicolon pass before closing braces -/

theorem insertSemicolons_replicate (n : Nat) :
    insertSemicolons (List.replicate n (.char '}')) = List.replicate n (.char '}') := by
  refine insertSemicolons_eq_self_iff.mpr ?_
  rw [← Bool.not_eq_true, lacksSemicolon_iff]
  rintro ⟨pre, decl, more, hs, hdecl, -⟩
  have hmem : CodePoint.char ':' ∈ List.replicate n (CodePoint.char '}') := by
    rw [hs]
    exact List.mem_append_left more (List.mem_append_right pre hdecl.colon_mem)
  exact absurd (List.eq_of_mem_replicate hmem) (by decide)

/-- A run that lacks a semicolon before a brace ends in a declaration, and gets it right there. -/
theorem insertSemicolons_run_closing {run : Text} (hrun : IsRun run) :
    (endsInDeclaration run = false ∧ insertSemicolons (run ++ [.char '}']) = run ++ [.char '}']) ∨
    (endsInDeclaration run = true ∧ lacksSemicolon (run ++ [.char '}']) = true ∧
      insertSemicolons (run ++ [.char '}']) = run ++ [.char ';', .char '}']) := by
  have hbrace : isDelimiter (.char '}') = true := by decide
  have hends : ∀ t, endsDeclaration (.char '}' :: t) = true := by
    intro t
    rw [endsDeclaration_eq, closes_cons, Bool.or_true]
  cases hopen : endsInDeclaration run with
  | false =>
    refine Or.inl ⟨rfl, ?_⟩
    rcases insertSemicolons_run hrun hbrace with ⟨-, hsame⟩ | ⟨pre, decl, more, rfl, hdecl, -⟩
    · exact hsame
    · have hlonger := hdecl.append (isRun_append.mp hrun).2
      rw [endsInDeclaration_iff.mpr ⟨pre, decl ++ more, List.append_assoc .., hlonger⟩] at hopen
      cases hopen
  | true =>
    obtain ⟨pre, decl, rfl, hdecl⟩ := endsInDeclaration_iff.mp hopen
    have hlacks : lacksSemicolon (pre ++ decl ++ [.char '}']) = true :=
      lacksSemicolon_iff.mpr ⟨pre, decl, [.char '}'], rfl, hdecl, hends []⟩
    refine Or.inr ⟨rfl, hlacks, ?_⟩
    rcases insertSemicolons_run hrun hbrace with ⟨hnot, -⟩ | ⟨pre', decl', more, hs, -, -, hnone, h⟩
    · rw [hlacks] at hnot
      cases hnot
    · cases more with
      | nil =>
        rw [h, hs, List.append_nil]
        rfl
      | cons x more =>
        -- the value would go on to the brace
        rw [hs] at hrun
        have := openValue?_isSome (List.cons_ne_nil x more) (isRun_append.mp hrun).2 (hends [])
        rw [hnone] at this
        cases this

theorem lacksSemicolon_append_insertSemicolons {run s : Text} {d : CodePoint}
    (hd : isDelimiter d = true) :
    lacksSemicolon (insertSemicolons (run ++ [d]) ++ s) =
      (lacksSemicolon (insertSemicolons (run ++ [d])) || lacksSemicolon s) := by
  obtain ⟨t, ht⟩ := exists_insertSemicolons_concat hd run
  rw [ht, List.append_assoc, List.singleton_append, lacksSemicolon_append hd]

/-- Before closing braces the pass does what it does at the end of a text that does not end in a
declaration. -/
theorem insertSemicolons_append_replicate {t : Text} (h : endsInDeclaration t = false) (n : Nat) :
    insertSemicolons (t ++ List.replicate n (.char '}')) =
      insertSemicolons t ++ List.replicate n (.char '}') := by
  induction t using run_induction with
  | last run hrun =>
    have hlacks : lacksSemicolon run = false := by
      rw [← Bool.not_eq_true, lacksSemicolon_iff]
      rintro ⟨pre, decl, more, rfl, hdecl, -⟩
      have hlonger := hdecl.append (isRun_append.mp hrun).2
      rw [endsInDeclaration_iff.mpr ⟨pre, decl ++ more, List.append_assoc .., hlonger⟩] at h
      cases h
    rw [insertSemicolons_eq_self_iff.mpr hlacks]
    cases n with
    | zero => rw [List.replicate_zero, List.append_nil, insertSemicolons_eq_self_iff.mpr hlacks]
    | succ n =>
      rcases insertSemicolons_run_closing hrun with ⟨-, hsame⟩ | ⟨hends, -⟩
      · rw [List.replicate_succ, insertSemicolons_append (by decide), hsame,
          insertSemicolons_replicate, List.append_assoc]
        rfl
      · rw [h] at hends
        cases hends
  | more run d rest hrun hd ih =>
    rw [endsInDeclaration_append_delimiter hd] at h
    rw [List.append_assoc, List.cons_append, insertSemicolons_append hd run (rest ++ _), ih h,
      insertSemicolons_append hd run rest, List.append_assoc]

/-- A declaration at the end of a text that gets its semicolon before a closing brace lacks it when
the brace comes after the pass. -/
theorem lacksSemicolon_insertSemicolons_append {t : Text} (h : endsInDeclaration t = true) (n : Nat)
    (hfull : lacksSemicolon (insertSemicolons (t ++ List.replicate (n + 1) (.char '}'))) = false) :
    lacksSemicolon (insertSemicolons t ++ List.replicate (n + 1) (.char '}')) = true := by
  induction t using run_induction with
  | last run hrun =>
    rcases insertSemicolons_run_closing hrun with ⟨hnot, -⟩ | ⟨-, hlacks, hended⟩
    · rw [h] at hnot
      cases hnot
    · have hassoc : run ++ [CodePoint.char ';', .char '}'] ++ List.replicate n (.char '}') =
          run ++ .char ';' :: .char '}' :: List.replicate n (.char '}') := by simp
      rw [List.replicate_succ, insertSemicolons_append (by decide), hended,
        insertSemicolons_replicate, hassoc, lacksSemicolon_append (by decide),
        Bool.or_eq_false_iff, ← insertSemicolons_eq_self_iff,
        insertSemicolons_append_of_ne (by decide) (by decide)] at hfull
      rw [List.append_cancel_right hfull.1, List.replicate_succ,
        lacksSemicolon_append (by decide), hlacks, Bool.true_or]
  | more run d rest hrun hd ih =>
    rw [endsInDeclaration_append_delimiter hd] at h
    rw [List.append_assoc, List.cons_append, insertSemicolons_append hd,
      lacksSemicolon_append_insertSemicolons hd, Bool.or_eq_false_iff] at hfull
    rw [insertSemicolons_append hd, List.append_assoc, lacksSemicolon_append_insertSemicolons hd,
      ih h hfull.2, Bool.or_true]

/-! ## Repairs -/

variable {t : Text}

/-- The text with the closing braces that it leaves off. -/
def closedText (t : Text) : Text := t ++ List.replicate (balance t).missing (.char '}')

theorem mended_closedText (hextra : (balance t).extra = false) :
    mended (closedText t) = insertSemicolons (closedText t) := by
  have hclosed := balance_closeBlocks hextra
  rw [closeBlocks_of_not_extra hextra] at hclosed
  rw [mended, closedText, hclosed]
  exact List.append_nil _

/-- Off a text that does not end in a declaration the closing braces may be left. -/
theorem mended_eq_mended_closedText (hextra : (balance t).extra = false)
    (hends : endsInDeclaration t = false) : mended t = mended (closedText t) := by
  rw [mended_closedText hextra, closedText, insertSemicolons_append_replicate hends, mended]

theorem lacksSemicolon_mended (hextra : (balance t).extra = false)
    (hends : endsInDeclaration t = true) (hopen : (balance t).missing ≠ 0)
    (hclosed : lacksSemicolon (mended (closedText t)) = false) :
    lacksSemicolon (mended t) = true := by
  obtain ⟨n, hn⟩ := Nat.exists_eq_succ_of_ne_zero hopen
  rw [mended_closedText hextra, closedText, hn] at hclosed
  rw [mended, hn]
  exact lacksSemicolon_insertSemicolons_append hends n hclosed

theorem missing_of_isBlank (h : Text.isBlank t = true) : (balance t).missing = 0 := by
  have hbalance := balanceFrom_braceless (.of_isRun (isRun_of_isBlank h)) 0 false []
  rw [List.append_nil] at hbalance
  rw [balance, hbalance]
  rfl

/-- A text without comments and stray braces that can be repaired with its last closing braces
written out can be repaired without them too, unless there are such braces and the text ends in a
declaration before them. -/
theorem tidy_unclosed_succeeds_iff (t : Text) (hcomments : stripComments t = t)
    (hextra : (balance t).extra = false)
    (hclosed :
      (tidy (t ++ List.replicate (balance t).missing (.char '}'))).succeeded = true) :
    (tidy t).succeeded = true ↔ (balance t).missing = 0 ∨ endsInDeclaration t = false := by
  by_cases hopen : (balance t).missing = 0
  · rw [hopen, List.replicate_zero, List.append_nil] at hclosed
    exact ⟨fun _ => Or.inl hopen, fun _ => hclosed⟩
  · have hblank : Text.isBlank t = false := by
      rw [← Bool.not_eq_true]
      exact fun h => hopen (missing_of_isBlank h)
    have hstripped : stripComments (closedText t) = closedText t := by
      refine stripComments_append_of_markless ?_ ?_ hcomments
      · exact fun h => absurd (List.eq_of_mem_replicate h) (by decide)
      · exact fun h => absurd (List.eq_of_mem_replicate h) (by decide)
    obtain ⟨-, hvalid⟩ := tidy_succeeded_iff.mp hclosed
    rw [← closedText, hstripped, isValid_corrected_iff] at hvalid
    obtain ⟨-, hlacks, hformat⟩ := hvalid
    rw [tidy_succeeded_iff, hcomments, isValid_corrected_iff]
    cases hends : endsInDeclaration t with
    | false =>
      rw [mended_eq_mended_closedText hextra hends]
      exact ⟨fun _ => Or.inr rfl, fun _ => ⟨hblank, hextra, hlacks, hformat⟩⟩
    | true =>
      constructor
      · rintro ⟨-, -, h, -⟩
        rw [lacksSemicolon_mended hextra hends hopen hlacks] at h
        cases h
      · rintro (h | h)
        · exact absurd h hopen
        · cases h

/-- Two open blocks behind a declaration that has its semicolon. -/
theorem tidy_unclosed_succeeds_two_blocks :
    (balance (Text.ofString "a\x7bb:c d\x7be:f;")).missing = 2 ∧
      endsInDeclaration (Text.ofString "a\x7bb:c d\x7be:f;") = false ∧
      (tidy (Text.ofString "a\x7bb:c d\x7be:f;")).succeeded = true := by
  have hends : endsInDeclaration (Text.ofString "a\x7bb:c d\x7be:f;") = false := by decide
  have hiff := tidy_unclosed_succeeds_iff (Text.ofString "a\x7bb:c d\x7be:f;") (by decide)
    (by decide) (by decide +kernel)
  exact ⟨by decide, hends, hiff.mpr (Or.inr hends)⟩

/-- A declaration without its semicolon is repaired before its closing brace, not without it. -/
theorem tidy_unclosed_declaration_rejected :
    stripComments (Text.ofString "a\x7bb:c") = Text.ofString "a\x7bb:c" ∧
      (balance (Text.ofString "a\x7bb:c")).extra = false ∧
      (tidy (Text.ofString "a\x7bb:c" ++
        List.replicate (balance (Text.ofString "a\x7bb:c")).missing (.char '}'))).succeeded =
          true ∧
      (tidy (Text.ofString "a\x7bb:c")).succeeded = false := by
  have hmissing : (balance (Text.ofString "a\x7bb:c")).missing = 1 := by decide
  rw [hmissing]
  exact ⟨by decide, by decide, by decide +kernel, by decide +kernel⟩

end TextTidy.Css
