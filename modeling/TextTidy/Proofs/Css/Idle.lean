import TextTidy.Proofs.Css.Lacking
import TextTidy.Proofs.Css.Squeeze

/-!
# Idle semicolons

The semicolon pass writes between a declaration and the closing brace behind it, or between a
declaration and the next one that it runs on into. The semicolons before closing braces make no
difference: the spelling pass passes them by and compaction takes them away again.
-/

namespace TextTidy.Css

/-! ## Texts that differ in idle semicolons -/

/-- The second text is the first one with semicolons between runs and the closing braces behind
them. -/
inductive IdleEnded : Text → Text → Prop where
  | refl (s : Text) : IdleEnded s s
  | same {run s o : Text} {d : CodePoint} (hrun : IsRun run) (hd : isDelimiter d = true)
      (h : IdleEnded s o) : IdleEnded (run ++ d :: s) (run ++ d :: o)
  | ended {run s o : Text} (hrun : IsRun run) (hblank : Text.isBlank run = false)
      (h : IdleEnded s o) :
      IdleEnded (run ++ .char '}' :: s) (run ++ .char ';' :: .char '}' :: o)

namespace IdleEnded

variable {s o : Text}

theorem append (h : IdleEnded s o) (t : Text) : IdleEnded (s ++ t) (o ++ t) := by
  induction h with
  | refl s => exact .refl (s ++ t)
  | same hrun hd _ ih =>
    rw [List.append_assoc, List.append_assoc]
    exact .same hrun hd ih
  | ended hrun hblank _ ih =>
    rw [List.append_assoc, List.append_assoc]
    exact .ended hrun hblank ih

theorem correctSpelling (h : IdleEnded s o) :
    IdleEnded (Css.correctSpelling s) (Css.correctSpelling o) := by
  induction h with
  | refl s => exact .refl _
  | same hrun hd _ ih =>
    rw [correctSpelling_append hd, correctSpelling_append hd]
    exact .same (isRun_correctSpelling hrun) hd ih
  | @ended run s o hrun hblank _ ih =>
    have hbrace := correctSpelling_append (d := .char '}') (by decide) [] o
    rw [correctSpelling_append (by decide), correctSpelling_append (by decide)]
    refine hbrace ▸ .ended (isRun_correctSpelling hrun) ?_ ih
    rw [← (correctSpelling_alike run).isBlank_eq hrun, hblank]

theorem alike (h : IdleEnded s o) : Alike o s := by
  induction h with
  | refl s => exact Alike.refl s
  | @same run _ _ d _ _ _ ih => exact (Alike.refl run).append (.keep d ih)
  | @ended run _ _ _ _ _ ih =>
    exact (Alike.refl run).append (.idle Text.isBlank_nil (.keep _ ih))

/-- Behind a run that is not blank, the semicolon before a closing brace is idle. -/
theorem squeezeFrom_eq (h : IdleEnded s o) :
    closes o = closes s ∧ ∀ after gap, squeezeFrom after gap o = squeezeFrom after gap s := by
  induction h with
  | refl s => exact ⟨rfl, fun _ _ => rfl⟩
  | @same run s o d hrun hd _ ih =>
    have hcloses : closes (d :: o) = closes (d :: s) := by
      rw [closes_cons_eq, closes_cons_eq, ih.1]
    refine ⟨closes_append fun _ => hcloses, squeezeFrom_run hrun fun after gap => ?_⟩
    simp only [squeezeFrom, ih.1, ih.2]
  | @ended run s o hrun hblank _ ih =>
    have hbrace : ∀ after gap t, squeezeFrom after gap (.char '}' :: t) =
        .char '}' :: squeezeFrom true false t :=
      fun after gap t => squeezeFrom_tight (by decide) (by rfl) after gap
    constructor
    · refine closes_append fun h => ?_
      rw [hblank] at h
      cases h
    · refine squeezeFrom_run hrun fun after gap => ?_
      rw [squeezeFrom_idle (closes_cons o), hbrace, hbrace, ih.2]

theorem compact_eq (h : IdleEnded s o) : compact o = compact s := by
  rw [compact_eq_squeezeFrom, compact_eq_squeezeFrom, h.squeezeFrom_eq.2]

end IdleEnded

/-! ## Where the semicolon pass writes -/

/-- The semicolon pass on one run with its delimiter: it adds nothing, a semicolon before the
closing brace, or one where a declaration of the run goes on into the next one. -/
theorem insertSemicolons_run_cases {run : Text} {d : CodePoint} (hrun : IsRun run)
    (hd : isDelimiter d = true) :
    (lacksSemicolon (run ++ [d]) = false ∧ insertSemicolons (run ++ [d]) = run ++ [d]) ∨
    (∃ pre decl, run = pre ++ decl ∧ IsDeclaration decl ∧ d = .char '}' ∧
      insertSemicolons (run ++ [d]) = run ++ [.char ';', d]) ∨
    ∃ pre decl more, run = pre ++ decl ++ more ∧ IsDeclaration decl ∧ nextProperty more = true ∧
      insertSemicolons (run ++ [d]) = pre ++ decl ++ .char ';' :: (more ++ [d]) := by
  rcases insertSemicolons_run hrun hd with hsame | ⟨pre, decl, more, rfl, hdecl, hends, hnone, hcut⟩
  · exact Or.inl hsame
  · cases hnext : nextProperty (more ++ [d]) with
    | true =>
      rw [nextProperty_append_delimiter hd] at hnext
      exact Or.inr (Or.inr ⟨pre, decl, more, rfl, hdecl, hnext, hcut⟩)
    | false =>
      obtain ⟨behind, hbehind⟩ := exists_closing hnext hends hnone
      cases more with
      | nil =>
        obtain ⟨rfl, -⟩ := List.cons.inj hbehind
        exact Or.inr (Or.inl ⟨pre, decl, by simp, hdecl, rfl, by simpa using hcut⟩)
      | cons x more =>
        obtain ⟨rfl, -⟩ := List.cons.inj hbehind
        exact absurd (hrun (.char '}') (by simp)) (by decide)

/-- A run at the end of a text is ended where one of its declarations goes on into the next one. -/
theorem insertSemicolons_last_run {run : Text} (hrun : IsRun run) :
    insertSemicolons run = run ∨
    ∃ pre decl more, run = pre ++ decl ++ more ∧ IsDeclaration decl ∧ nextProperty more = true ∧
      insertSemicolons run = pre ++ decl ++ .char ';' :: more := by
  have happend : insertSemicolons (run ++ [.char ';']) = insertSemicolons run ++ [.char ';'] :=
    insertSemicolons_append_of_ne (by decide) (by decide) run []
  rcases insertSemicolons_run_cases hrun (d := .char ';') (by decide) with ⟨-, hsame⟩ |
    ⟨-, -, -, -, hne, -⟩ | ⟨pre, decl, more, hs, hdecl, hnext, hcut⟩
  · exact Or.inl (List.append_cancel_right (happend.symm.trans hsame))
  · exact absurd hne (by decide)
  · refine Or.inr ⟨pre, decl, more, hs, hdecl, hnext, ?_⟩
    have hend : insertSemicolons run ++ [.char ';'] =
        pre ++ decl ++ .char ';' :: more ++ [.char ';'] := by
      rw [← happend, hcut]
      simp
    exact List.append_cancel_right hend

end TextTidy.Css
