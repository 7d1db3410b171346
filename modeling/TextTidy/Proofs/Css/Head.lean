import TextTidy.Proofs.Css.Value

/-!
# The head of a run

The first colon of a run that a name leads to is its head. The semicolon pass does nothing in a run
without a head, and otherwise ends the value behind it: whatever names and colons come later in the
run are part of that value.
-/

namespace TextTidy.Css

/-! ## Heads -/

/-- What is behind the head of the run at the start of a text: the first colon of the run that,
blanks aside, a character of a name leads to. -/
def headValue? : Text → Option Text
  | [] => none
  | c :: rest =>
    if isDelimiter c then none
    else if isNameChar c && colonFollows rest then some (Text.trimStart rest).tail
    else headValue? rest

theorem headValue?_at_name {c : CodePoint} (hc : isNameChar c = true) {gap : Text}
    (hgap : Text.isBlank gap = true) (value : Text) :
    headValue? (c :: (gap ++ .char ':' :: value)) = some value := by
  have hcolon : colonFollows (gap ++ .char ':' :: value) = true :=
    colonFollows_iff.mpr ⟨gap, value, rfl, hgap⟩
  rw [headValue?, not_isDelimiter_of_isNameChar hc, hc, hcolon,
    Text.trimStart_gap hgap (by decide)]
  rfl

theorem headValue?_cons_of_not {c : CodePoint} {rest : Text} (hd : isDelimiter c = false)
    (h : (isNameChar c && colonFollows rest) = false) :
    headValue? (c :: rest) = headValue? rest := by
  rw [headValue?, hd, h]
  rfl

theorem headValue?_delimiter {d : CodePoint} (hd : isDelimiter d = true) (rest : Text) :
    headValue? (d :: rest) = none := by
  rw [headValue?, hd, if_pos rfl]

/-- The run ends, or its head comes next, or the head is the one of what follows. -/
theorem headValue?_cases (c : CodePoint) (s : Text) :
    (isDelimiter c = true ∧ headValue? (c :: s) = none) ∨
    (∃ gap value, s = gap ++ .char ':' :: value ∧ isNameChar c = true ∧
      Text.isBlank gap = true ∧ headValue? (c :: s) = some value) ∨
    (isDelimiter c = false ∧ (isNameChar c = true → colonFollows s = false) ∧
      headValue? (c :: s) = headValue? s) := by
  cases hd : isDelimiter c with
  | true => exact Or.inl ⟨rfl, headValue?_delimiter hd s⟩
  | false =>
    cases hname : isNameChar c && colonFollows s with
    | true =>
      obtain ⟨hc, hcolon⟩ := Bool.and_eq_true_iff.mp hname
      obtain ⟨gap, value, rfl, hgap⟩ := colonFollows_iff.mp hcolon
      exact Or.inr (Or.inl ⟨gap, value, rfl, hc, hgap, headValue?_at_name hc hgap value⟩)
    | false =>
      refine Or.inr (Or.inr ⟨rfl, fun hc => ?_, headValue?_cons_of_not hd hname⟩)
      rwa [hc, Bool.true_and] at hname

theorem headValue?_skip {c : CodePoint} {s : Text} (hd : isDelimiter c = false)
    (h : isNameChar c = true → colonFollows s = false) : headValue? (c :: s) = headValue? s := by
  refine headValue?_cons_of_not hd ?_
  cases hc : isNameChar c with
  | true => rw [h hc, Bool.true_and]
  | false => rw [Bool.false_and]

/-- What is passed over before a text is passed over before the front of it. -/
theorem headValue?_skip_front {c : CodePoint} {front value : Text} (hd : isDelimiter c = false)
    (h : isNameChar c = true → colonFollows (front ++ value) = false) :
    headValue? (c :: front) = headValue? front := by
  refine headValue?_skip hd fun hc => ?_
  rw [← Bool.not_eq_true]
  intro hcolon
  obtain ⟨gap, rest, rfl, hgap⟩ := colonFollows_iff.mp hcolon
  have hlonger : colonFollows (gap ++ .char ':' :: rest ++ value) = true :=
    colonFollows_iff.mpr ⟨gap, rest ++ value, by simp, hgap⟩
  rw [h hc] at hlonger
  cases hlonger

theorem headValue?_gap {gap : Text} (hgap : Text.isBlank gap = true) (s : Text) :
    headValue? (gap ++ s) = headValue? s := by
  induction gap with
  | nil => rfl
  | cons b gap ih =>
    obtain ⟨hb, hgap⟩ := Text.isBlank_cons.mp hgap
    rw [List.cons_append, headValue?_skip (not_isDelimiter_of_isBlank hb), ih hgap]
    intro hname
    rw [not_isNameChar_of_isBlank hb] at hname
    cases hname

theorem headValue?_of_isBlank {gap : Text} (hgap : Text.isBlank gap = true) :
    headValue? gap = none := by
  have h := headValue?_gap hgap []
  rwa [List.append_nil] at h

/-- A text with a head begins with a name and its colon, up to which there is no other head. -/
theorem headValue?_eq_some {s value : Text} (h : headValue? s = some value) :
    ∃ pre c gap, s = pre ++ c :: (gap ++ .char ':' :: value) ∧ isNameChar c = true ∧
      Text.isBlank gap = true ∧ ∀ value',
        headValue? (pre ++ c :: (gap ++ .char ':' :: value')) = some value' := by
  induction s with
  | nil => cases h
  | cons c s ih =>
    rcases headValue?_cases c s with ⟨-, hnone⟩ | ⟨gap, behind, rfl, hc, hgap, hsome⟩ |
      ⟨hd, hname, hskip⟩
    · rw [hnone] at h
      cases h
    · obtain rfl := Option.some.inj (hsome.symm.trans h)
      exact ⟨[], c, gap, rfl, hc, hgap, headValue?_at_name hc hgap⟩
    · rw [hskip] at h
      obtain ⟨pre, x, gap, rfl, hx, hgap, hall⟩ := ih h
      refine ⟨c :: pre, x, gap, rfl, hx, hgap, fun value' => ?_⟩
      have hstop : x ≠ .char ':' := by
        rintro rfl
        exact absurd hx (by decide)
      rw [List.cons_append, headValue?_skip hd, hall]
      rw [colonFollows_append_stop (not_isBlank_of_isNameChar hx) hstop] at hname ⊢
      exact hname

/-- What is behind the head goes on as far as the text does. -/
theorem headValue?_append {s value : Text} (h : headValue? s = some value) (rest : Text) :
    headValue? (s ++ rest) = some (value ++ rest) := by
  obtain ⟨pre, c, gap, rfl, -, -, hall⟩ := headValue?_eq_some h
  rw [List.append_assoc, List.cons_append, List.append_assoc, List.cons_append, hall]

theorem headless_of_append {s rest : Text} (h : headValue? (s ++ rest) = none) :
    headValue? s = none := by
  cases hs : headValue? s with
  | none => rfl
  | some value =>
    rw [headValue?_append hs] at h
    cases h

/-- A text with a head is cut at it. -/
theorem exists_head {s value : Text} (h : headValue? s = some value) :
    ∃ front, s = front ++ value ∧ headValue? front = some [] := by
  obtain ⟨pre, c, gap, rfl, -, -, hall⟩ := headValue?_eq_some h
  exact ⟨pre ++ c :: (gap ++ [.char ':']), by simp, hall []⟩

/-- The head of a run is the colon behind any name in it, or one before. -/
theorem headValue?_of_name {pre gap : Text} {c : CodePoint} (hpre : IsRun pre)
    (hc : isNameChar c = true) (hgap : Text.isBlank gap = true) (value : Text) :
    ∃ more, headValue? (pre ++ c :: (gap ++ .char ':' :: value)) = some (more ++ value) := by
  induction pre with
  | nil => exact ⟨[], headValue?_at_name hc hgap value⟩
  | cons x pre ih =>
    obtain ⟨hx, hpre⟩ := isRun_cons.mp hpre
    rw [List.cons_append]
    rcases headValue?_cases x (pre ++ c :: (gap ++ .char ':' :: value)) with ⟨hd, -⟩ |
      ⟨gap', behind, hs, -, hgap', hsome⟩ | ⟨-, -, hskip⟩
    · rw [hx] at hd
      cases hd
    · rcases gap_cut (not_isBlank_of_isNameChar hc) hgap' hs with ⟨-, rfl, -⟩ | ⟨more, -, hrest⟩
      · exact absurd hc (by decide)
      · exact ⟨more ++ c :: (gap ++ [.char ':']), by rw [hsome, ← hrest]; simp⟩
    · rw [hskip]
      exact ih hpre

/-- The heads of texts that are spaced alike are at the same place. -/
theorem headValue?_spaced {s o : Text} (h : Spaced s o) :
    (headValue? s = none ∧ headValue? o = none) ∨
      ∃ front front' value value', s = front ++ value ∧ o = front' ++ value' ∧
        headValue? front = some [] ∧ headValue? front' = some [] ∧ Spaced front front' ∧
        Spaced value value' := by
  have hsemi : ∀ {gap : Text}, Text.isBlank gap = true → ∀ t,
      headValue? (gap ++ .char ';' :: t) = none := by
    intro gap hgap t
    rw [headValue?_gap hgap, headValue?_delimiter (by decide)]
  induction h with
  | blank hsame =>
    exact Or.inl ⟨headValue?_of_isBlank hsame.blank, headValue?_of_isBlank hsame.blank'⟩
  | ended hgap₁ hgap₂ _ _ => exact Or.inl ⟨hsemi hgap₁ _, hsemi hgap₂ _⟩
  | @char gap gap' s o c hsame hc hs ih =>
    rw [headValue?_gap hsame.blank, headValue?_gap hsame.blank']
    rcases headValue?_cases c s with ⟨hd, hnone⟩ | ⟨between, value, rfl, hname, hbetween, -⟩ |
      ⟨hd, hname, hskip⟩
    · exact Or.inl ⟨hnone, headValue?_delimiter hd o⟩
    · obtain ⟨between', value', rfl, hbetween', hnil, hvalue⟩ := hs.gap_front hbetween (by decide)
      refine Or.inr ⟨gap ++ c :: (between ++ [.char ':']), gap' ++ c :: (between' ++ [.char ':']),
        value, value', by simp, by simp, ?_, ?_, ?_, hvalue⟩
      · rw [headValue?_gap hsame.blank, headValue?_at_name hname hbetween]
      · rw [headValue?_gap hsame.blank', headValue?_at_name hname hbetween']
      · exact .char hsame hc (.char ⟨hbetween, hbetween', hnil (by decide)⟩ (by decide) .nil)
    · have hname' : isNameChar c = true → colonFollows o = false := by
        rw [← hs.colonFollows_eq]
        exact hname
      rw [hskip, headValue?_skip hd hname']
      refine ih.imp_right ?_
      rintro ⟨front, front', value, value', rfl, rfl, hfront, hfront', hspaced, hvalue⟩
      refine ⟨gap ++ c :: front, gap' ++ c :: front', value, value', by simp, by simp, ?_, ?_,
        .char hsame hc hspaced, hvalue⟩
      · rw [headValue?_gap hsame.blank, headValue?_skip_front hd hname, hfront]
      · rw [headValue?_gap hsame.blank', headValue?_skip_front hd hname', hfront']

/-! ## The semicolon pass on a run with a head -/

/-- What is behind a run: a delimiter, or the end of the text. -/
inductive RunEnd : Text → Prop where
  | text : RunEnd []
  | delimiter {d : CodePoint} (hd : isDelimiter d = true) : RunEnd [d]

/-- The semicolon pass adds one semicolon to a run at most, whatever is behind the run. -/
theorem insertSemicolons_runEnd {run tail : Text} (hrun : IsRun run) (htail : RunEnd tail) :
    (lacksSemicolon (run ++ tail) = false ∧ insertSemicolons (run ++ tail) = run ++ tail) ∨
    ∃ pre decl more, run = pre ++ decl ++ more ∧ IsDeclaration decl ∧
      endsDeclaration (more ++ tail) = true ∧ openValue? (more ++ tail) = none ∧
      insertSemicolons (run ++ tail) = pre ++ decl ++ .char ';' :: (more ++ tail) := by
  cases htail with
  | delimiter hd => exact insertSemicolons_run hrun hd
  | text =>
    have hsemi : isDelimiter (.char ';') = true := by decide
    have hpass : insertSemicolons (run ++ [.char ';']) = insertSemicolons run ++ [.char ';'] :=
      insertSemicolons_append_of_ne hsemi (by decide) run []
    rw [List.append_nil]
    rcases insertSemicolons_run hrun hsemi with ⟨-, hsame⟩ |
      ⟨pre, decl, more, rfl, hdecl, hends, hnone, hcut⟩
    · have hkept := List.append_cancel_right (hpass.symm.trans hsame)
      exact Or.inl ⟨insertSemicolons_eq_self_iff.mp hkept, hkept⟩
    · refine Or.inr ⟨pre, decl, more, rfl, hdecl, ?_, ?_, ?_⟩
      · rw [endsDeclaration_append_delimiter hsemi] at hends
        rw [List.append_nil]
        simpa using hends
      · rw [List.append_nil, ← openValue?_concat hsemi (by decide), hnone]
      · rw [hpass] at hcut
        rw [List.append_nil]
        exact List.append_cancel_right (hcut.trans (by simp))

/-- The value behind the head of a run reaches into every declaration of the run. -/
theorem exists_head_of_declaration {pre decl : Text} (hrun : IsRun (pre ++ decl))
    (hdecl : IsDeclaration decl) :
    ∃ front value, pre ++ decl = front ++ value ∧ headValue? front = some [] ∧ value ≠ [] := by
  obtain ⟨hname, hchars, hgap, hne, -⟩ := hdecl
  rename_i name gap declared
  obtain ⟨init, c, rfl⟩ := Text.exists_concat hname
  have hpre : IsRun (pre ++ init) := by
    simp only [isRun_append] at hrun ⊢
    exact ⟨hrun.1, hrun.2.1.1⟩
  obtain ⟨more, hmore⟩ := headValue?_of_name hpre (hchars c (by simp)) hgap declared
  obtain ⟨front, hsplit, hhead⟩ := exists_head hmore
  refine ⟨front, more ++ declared, ?_, hhead, by simp [hne]⟩
  rw [← hsplit]
  simp

/-- An open value behind a head lacks its semicolon. -/
theorem lacksSemicolon_of_head {front value : Text} (hhead : headValue? front = some [])
    (hopen : (openValue? value).isSome = true) : lacksSemicolon (front ++ value) = true := by
  obtain ⟨pre, c, gap, rfl, hc, hgap, -⟩ := headValue?_eq_some hhead
  refine lacksSemicolon_iff_open.mpr ⟨pre, c, gap ++ .char ':' :: value, by simp, hc, ?_⟩
  rw [openBehind_gap hgap, hopen]

/-- In a run with a head the pass ends the value behind it. -/
theorem insertSemicolons_head {front value run tail : Text} (hrun : IsRun run)
    (htail : RunEnd tail) (hhead : headValue? front = some [])
    (hs : run ++ tail = front ++ value) :
    insertSemicolons (run ++ tail) = front ++ endValue value := by
  rcases insertSemicolons_runEnd hrun htail with ⟨hlacks, hsame⟩ |
    ⟨pre, decl, more, rfl, hdecl, hends, hnone, hcut⟩
  · have hclosed : (openValue? value).isSome = false := by
      rw [← Bool.not_eq_true]
      intro hopen
      rw [hs, lacksSemicolon_of_head hhead hopen] at hlacks
      cases hlacks
    rw [hsame, hs, endValue_of_none hclosed]
  · -- the declaration that is ended reaches as far as the value of the head does
    obtain ⟨hfront, -⟩ := isRun_append.mp hrun
    obtain ⟨front', declared, hsplit, hhead', hne⟩ := exists_head_of_declaration hfront hdecl
    have hwhole : front ++ value = front' ++ (declared ++ (more ++ tail)) := by
      rw [← hs, List.append_assoc, hsplit, List.append_assoc]
    have hvalue : value = declared ++ (more ++ tail) := by
      have h := headValue?_append hhead value
      rw [hwhole, headValue?_append hhead'] at h
      exact (Option.some.inj h).symm
    rw [hvalue] at hwhole
    obtain rfl := List.append_cancel_right hwhole
    rw [hsplit] at hfront
    rw [hcut, hsplit, hvalue, endValue_of_longest hne (isRun_append.mp hfront).2 hends hnone,
      List.append_assoc]

theorem insertSemicolons_headless {run tail : Text} (hrun : IsRun run) (htail : RunEnd tail)
    (h : headValue? run = none) : insertSemicolons (run ++ tail) = run ++ tail := by
  rcases insertSemicolons_runEnd hrun htail with ⟨-, hsame⟩ |
    ⟨pre, decl, more, rfl, hdecl, -⟩
  · exact hsame
  · obtain ⟨front, declared, hsplit, hhead, -⟩ :=
      exists_head_of_declaration (isRun_append.mp hrun).1 hdecl
    rw [hsplit, List.append_assoc, headValue?_append hhead] at h
    cases h

end TextTidy.Css
