import TextTidy.Proofs.Css.BlankValue
import TextTidy.Proofs.Css.SpacedScan

/-!
# The marks of a text

The colons, semicolons and braces of a text can be read off its compact form, but for the semicolons
that the compact form drops. In two texts that are spaced alike they tell whether the same values
were blank: the semicolon that ends a blank value comes before the colon of the next property.
-/

namespace TextTidy.Css

/-! ## Marks -/

/-- The punctuation that declarations and blocks are made of. -/
def isMark (c : CodePoint) : Bool := isDelimiter c || c == .char ':'

/-- The marks of a text without the semicolons that its compact form drops. -/
def marks : Text → Text
  | [] => []
  | c :: s =>
    if c == .char ';' && closes s then marks s
    else if isMark c then c :: marks s
    else marks s

section

variable {c : CodePoint} {s gap : Text}

theorem marks_keep (hc : isMark c = true) (h : (c == .char ';' && closes s) = false) :
    marks (c :: s) = c :: marks s := by
  rw [marks, h, hc]
  rfl

theorem marks_skip (hc : isMark c = false) : marks (c :: s) = marks s := by
  rw [marks, hc]
  split <;> rfl

theorem not_isMark_of_isBlank (h : c.isBlank = true) : isMark c = false := by
  rw [isMark, not_isDelimiter_of_isBlank h, Bool.false_or, beq_eq_false_iff_ne]
  rintro rfl
  exact absurd h (by decide)

theorem not_isMark_of_isNameChar (h : isNameChar c = true) : isMark c = false := by
  rw [isMark, not_isDelimiter_of_isNameChar h, Bool.false_or, beq_eq_false_iff_ne]
  rintro rfl
  exact absurd h (by decide)

theorem marks_append_of_forall {front : Text} (h : ∀ c ∈ front, isMark c = false) (s : Text) :
    marks (front ++ s) = marks s := by
  induction front with
  | nil => rfl
  | cons c front ih =>
    rw [List.forall_mem_cons] at h
    rw [List.cons_append, marks_skip h.1, ih h.2]

theorem marks_gap (hgap : Text.isBlank gap = true) (s : Text) : marks (gap ++ s) = marks s :=
  marks_append_of_forall (fun b hb => not_isMark_of_isBlank (Text.isBlank_iff.mp hgap b hb)) s

theorem marks_name {name : Text} (h : ∀ c ∈ name, isNameChar c = true) (s : Text) :
    marks (name ++ s) = marks s :=
  marks_append_of_forall (fun c hc => not_isMark_of_isNameChar (h c hc)) s

/-- The first mark of a property is its colon. -/
theorem head?_marks_of_propertyFollows (h : propertyFollows s = true) (t : Text) :
    (marks (s ++ t)).head? = some (.char ':') := by
  obtain ⟨name, gap, rest, rfl, -, hchars, hgap⟩ := propertyFollows_iff.mp h
  rw [List.append_assoc, List.append_assoc, marks_name hchars, marks_gap hgap, List.cons_append,
    marks_keep (by decide) (by rfl)]
  rfl

end

/-! ## Marks of compact and of respelt texts -/

theorem filter_squeezeFrom (after gap : Bool) (s : Text) :
    (squeezeFrom after gap s).filter isMark = marks s := by
  induction s generalizing after gap with
  | nil => rfl
  | cons c s ih =>
    have hkept : ∀ after, (c == .char ';' && closes s) = false →
        (c :: squeezeFrom after false s).filter isMark = marks (c :: s) := by
      intro after hidle
      cases hc : isMark c with
      | true => rw [List.filter_cons_of_pos hc, ih, marks_keep hc hidle]
      | false => rw [List.filter_cons_of_neg (by simp [hc]), ih, marks_skip hc]
    rcases squeezeFrom_cases after gap c s with ⟨hc, hs⟩ | ⟨rfl, hcloses, hs⟩ | ⟨-, hidle, hs⟩ |
      ⟨-, -, -, htight, -, hs⟩
    · rw [hs, ih, marks_skip (not_isMark_of_isBlank hc)]
    · rw [hs, ih, marks, hcloses]
      rfl
    · rw [hs, hkept _ hidle]
    · have hidle : (c == .char ';' && closes s) = false := by
        rw [Bool.and_eq_false_iff, beq_eq_false_iff_ne]
        refine Or.inl ?_
        rintro rfl
        cases htight
      rw [hs, List.filter_cons_of_neg (by decide), hkept _ hidle]

/-- The compact form keeps the marks. -/
theorem filter_compact (s : Text) : (compact s).filter isMark = marks s := by
  rw [compact_eq_squeezeFrom, filter_squeezeFrom]

/-- The spelling pass keeps the marks. -/
theorem marks_correctSpelling (s : Text) : marks (correctSpelling s) = marks s := by
  refine (correctSpelling_relates (R := fun s o => closes o = closes s ∧ marks o = marks s)
    ⟨rfl, rfl⟩ ?_ ?_ s).2
  · rintro c s o ⟨hcloses, hmarks⟩
    refine ⟨closes_append (s := [c]) fun _ => hcloses, ?_⟩
    rw [marks, marks, hcloses, hmarks]
  · rintro entry hmem s o ⟨-, hmarks⟩
    obtain ⟨hwrong, hright⟩ := misspellings_isNameChar entry hmem
    obtain ⟨hpos, heq, hle⟩ := misspellings_length entry hmem
    have hword : ∀ {word : Text}, word ≠ [] → (∀ c ∈ word, isNameChar c = true) →
        ∀ t, closes (word ++ t) = false := by
      intro word hne hchars t
      cases word with
      | nil => exact absurd rfl hne
      | cons c word =>
        have hc := (List.forall_mem_cons.mp hchars).1
        rw [List.cons_append, closes_cons_eq, not_isBlank_of_isNameChar hc,
          not_closing_of_not_isDelimiter (not_isDelimiter_of_isNameChar hc)]
        rfl
    constructor
    · rw [hword (List.ne_nil_of_length_pos (by omega)) hright,
        hword (List.ne_nil_of_length_pos (by omega)) hwrong]
    · rw [marks_name hright, marks_name hwrong, hmarks]

/-! ## Marks of texts that are spaced alike -/

theorem Spaced.closes_append_eq {s o t u : Text} (h : Spaced s o) (htail : closes t = closes u) :
    closes (s ++ t) = closes (o ++ u) := by
  cases h with
  | blank hgap =>
    rw [closes, closes, Text.trimStart_append hgap.blank, Text.trimStart_append hgap.blank']
    exact htail
  | char hgap hc _ =>
    rw [List.append_assoc, List.append_assoc, List.cons_append, List.cons_append,
      closes_gap hgap.blank hc, closes_gap hgap.blank' hc]
  | ended hgap hgap' _ =>
    rw [List.append_assoc, List.append_assoc, List.cons_append, List.cons_append,
      closes_gap hgap semicolon_not_isBlank, closes_gap hgap' semicolon_not_isBlank]

/-- Texts that are spaced alike have the same marks, whatever comes behind them, as long as a
closing brace comes next behind both or behind neither. -/
theorem Spaced.exists_marks_append {s o : Text} (h : Spaced s o) {t u : Text}
    (htail : closes t = closes u) :
    ∃ front, marks (s ++ t) = front ++ marks t ∧ marks (o ++ u) = front ++ marks u := by
  have hchar : ∀ {gap gap' s o : Text} {c : CodePoint}, Text.isBlank gap = true →
      Text.isBlank gap' = true → closes (s ++ t) = closes (o ++ u) →
      (∃ front, marks (s ++ t) = front ++ marks t ∧ marks (o ++ u) = front ++ marks u) →
      ∃ front, marks (gap ++ c :: s ++ t) = front ++ marks t ∧
        marks (gap' ++ c :: o ++ u) = front ++ marks u := by
    rintro gap gap' s o c hgap hgap' hcloses ⟨front, hs, ho⟩
    simp only [List.append_assoc, List.cons_append, marks_gap hgap, marks_gap hgap', marks, hcloses,
      hs, ho]
    split
    · exact ⟨front, rfl, rfl⟩
    · split
      · exact ⟨c :: front, rfl, rfl⟩
      · exact ⟨front, rfl, rfl⟩
  induction h with
  | blank hgap => exact ⟨[], marks_gap hgap.blank t, marks_gap hgap.blank' u⟩
  | char hgap _ hs ih => exact hchar hgap.blank hgap.blank' (hs.closes_append_eq htail) ih
  | ended hgap hgap' hs ih => exact hchar hgap hgap' (hs.closes_append_eq htail) ih

/-! ## Marks of blank values -/

/-- A blank value is not ended as a value that is spaced alike and not blank: it stays open, or its
semicolon comes where the other value goes on with the next property. -/
theorem marks_endValue_ne {value value' : Text} (h : Spaced value value')
    (hblank : blankValue value = true) (hblank' : blankValue value' = false) :
    blankValue (endValue value) = true ∨ ∀ t u,
      closes (endValue value ++ t) = closes (endValue value' ++ u) ∧
      marks (endValue value ++ t) ≠ marks (endValue value' ++ u) := by
  obtain ⟨gap, gap', c, s, o, rfl, rfl, hgap, hgap', hc, hrest⟩ := h.exists_of_blankValue hblank
  obtain ⟨-, -, -, -, -, -, -, hproperty⟩ := exists_of_blankValue hgap hc hblank
  have hname := (Bool.and_eq_true_iff.mp hproperty).1
  rcases endValue_of_blankValue hgap hc hblank with ⟨-, hend, hkept⟩ |
    ⟨hbegun, before, b, rfl, hend, -⟩
  · rw [hend]
    exact Or.inl hkept
  · refine Or.inr fun t u => ?_
    obtain ⟨hbefore, hb⟩ := Text.isBlank_append.mp hgap
    rw [begunOpen_spaced hrest] at hbegun
    have hend' : endValue (gap' ++ c :: o) = gap' ++ c :: o := by
      rw [endValue_gap hgap' hc (not_isDelimiter_of_isNameChar hname) hblank',
        endBegun_of_not_open hbegun]
    have hnot := not_closing_of_not_isDelimiter (not_isDelimiter_of_isNameChar hname)
    rw [hend, hend', List.append_assoc, List.append_assoc, List.cons_append]
    constructor
    · rw [closes_gap hbefore semicolon_not_isBlank, List.cons_append, closes_gap hgap' hc, hnot]
      rfl
    · intro hmarks
      have hopen : closes (b :: c :: (s ++ t)) = false := (closes_gap hb hc _).trans hnot
      have hfirst : marks (.char ';' :: b :: c :: (s ++ t)) =
          .char ';' :: marks (b :: c :: (s ++ t)) :=
        marks_keep (by decide) (by rw [hopen, Bool.and_false])
      rw [hrest.propertyFollows_cons_eq] at hproperty
      have hhead := head?_marks_of_propertyFollows hproperty u
      rw [marks_gap hbefore, marks_gap hgap', List.cons_append, List.cons_append, hfirst] at hmarks
      rw [← hmarks] at hhead
      cases hhead

section RunEnd

variable {run run' tail t u : Text}

theorem marks_insertSemicolons_ne (hrun : IsRun run) (hrun' : IsRun run') (htail : RunEnd tail)
    (h : Spaced (run ++ tail) (run' ++ tail)) (hblank : blankHead (run ++ tail) = true)
    (hblank' : blankHead (run' ++ tail) = false)
    (hlacks : lacksSemicolon (insertSemicolons (run ++ tail) ++ t) = false) :
    marks (insertSemicolons (run ++ tail) ++ t) ≠ marks (insertSemicolons (run' ++ tail) ++ u) := by
  rcases headValue?_spaced h with ⟨hnone, -⟩ |
    ⟨front, front', value, value', hsplit, hsplit', hhead, hhead', hfront, hvalue⟩
  · rw [blankHead, hnone] at hblank
    cases hblank
  · have hs := insertSemicolons_head hrun htail hhead hsplit
    have ho := insertSemicolons_head hrun' htail hhead' hsplit'
    rw [hsplit, blankHead_of_head hhead] at hblank
    rw [hsplit', blankHead_of_head hhead'] at hblank'
    rcases marks_endValue_ne hvalue hblank hblank' with hkept | hne
    · have hstill : blankHead (insertSemicolons (run ++ tail)) = true := by
        rw [hs, blankHead_of_head hhead, hkept]
      rw [lacksSemicolon_of_blankHead hstill] at hlacks
      cases hlacks
    · obtain ⟨hcloses, hmarks⟩ := hne t u
      obtain ⟨shared, hleft, hright⟩ := hfront.exists_marks_append hcloses
      rw [hs, ho, List.append_assoc, List.append_assoc, hleft, hright]
      exact fun heq => hmarks (List.append_cancel_left heq)

/-- Runs that are spaced alike and come to have the same marks have a blank value both or
neither. -/
theorem blankHead_eq_of_marks (hrun : IsRun run) (hrun' : IsRun run') (htail : RunEnd tail)
    (h : Spaced (run ++ tail) (run' ++ tail))
    (hs : lacksSemicolon (insertSemicolons (run ++ tail) ++ t) = false)
    (ho : lacksSemicolon (insertSemicolons (run' ++ tail) ++ u) = false)
    (hmarks : marks (insertSemicolons (run ++ tail) ++ t) =
      marks (insertSemicolons (run' ++ tail) ++ u)) :
    blankHead (run ++ tail) = blankHead (run' ++ tail) := by
  cases hblank : blankHead (run ++ tail) <;> cases hblank' : blankHead (run' ++ tail)
  · rfl
  · exact absurd hmarks.symm (marks_insertSemicolons_ne hrun' hrun htail h.symm hblank' hblank ho)
  · exact absurd hmarks (marks_insertSemicolons_ne hrun hrun' htail h hblank hblank' hs)
  · rfl

end RunEnd

theorem closes_insertSemicolons_append (s t : Text) :
    closes (insertSemicolons s ++ t) = closes (s ++ t) := by
  refine insertSemicolons_relates (R := fun s o => closes (o ++ t) = closes (s ++ t)) rfl ?_ ?_ s
  · intro c s o h
    exact closes_append (s := [c]) fun _ => h
  · intro decl more o hdecl _ _
    rw [List.append_assoc, List.append_assoc]
    refine closes_append fun hblank => ?_
    rw [hdecl.not_isBlank] at hblank
    cases hblank

/-- Texts that are spaced alike and come to have the same marks, with no semicolon lacking, have
their blank values in the same runs. -/
theorem blankValues_eq_of_marks {s o t : Text} (h : Spaced s o)
    (hs : lacksSemicolon (insertSemicolons s ++ t) = false)
    (ho : lacksSemicolon (insertSemicolons o ++ t) = false)
    (hmarks : marks (insertSemicolons s ++ t) = marks (insertSemicolons o ++ t)) :
    blankValues s = blankValues o := by
  revert hs ho hmarks
  refine spaced_run_induction (motive := fun s o =>
    lacksSemicolon (insertSemicolons s ++ t) = false →
    lacksSemicolon (insertSemicolons o ++ t) = false →
    marks (insertSemicolons s ++ t) = marks (insertSemicolons o ++ t) →
    blankValues s = blankValues o) ?_ ?_ h
  · intro run run' hrun hrun' hspaced hs ho hmarks
    have hlast := blankHead_eq_of_marks (t := t) (u := t) hrun hrun' RunEnd.text
    rw [List.append_nil, List.append_nil] at hlast
    rw [blankValues_run hrun, blankValues_run hrun', hlast hspaced hs ho hmarks]
  · intro run run' d rest rest' hrun hrun' hd hfront hrest ih hs ho hmarks
    have hlater : ∀ {run rest : Text},
        lacksSemicolon (insertSemicolons (run ++ [d]) ++ (insertSemicolons rest ++ t)) = false →
        lacksSemicolon (insertSemicolons rest ++ t) = false := by
      intro run rest hlacks
      obtain ⟨ended, hended⟩ := exists_insertSemicolons_concat hd run
      rw [hended, List.append_assoc, List.singleton_append, lacksSemicolon_append hd,
        Bool.or_eq_false_iff] at hlacks
      exact hlacks.2
    rw [insertSemicolons_append hd run rest, List.append_assoc] at hs hmarks
    rw [insertSemicolons_append hd run' rest', List.append_assoc] at ho hmarks
    have hfirst := blankHead_eq_of_marks hrun hrun' (.delimiter hd) hfront hs ho hmarks
    have hcloses : closes (insertSemicolons rest ++ t) = closes (insertSemicolons rest' ++ t) := by
      rw [closes_insertSemicolons_append, closes_insertSemicolons_append,
        hrest.closes_append_eq rfl]
    -- with the marks of the first runs the same, those of the others are
    obtain ⟨shared, hleft, hright⟩ :=
      (insertSemicolons_runEnd_spaced hrun hrun' (.delimiter hd) hfront hfirst).exists_marks_append
        hcloses
    rw [hleft, hright] at hmarks
    exact (blankValues_eq_iff hrun hrun' hd).mpr
      ⟨hfirst, ih (hlater hs) (hlater ho) (List.append_cancel_left hmarks)⟩

end TextTidy.Css
