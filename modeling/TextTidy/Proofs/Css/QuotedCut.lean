import TextTidy.Proofs.Css.QuotedEnd
import TextTidy.Proofs.Css.Settled

/-!
# Quoted texts that are cut

Where a declaration runs on inside quotes, the semicolon pass writes a semicolon into the quoted
text, and there is a blank behind it. Compaction takes that blank away, so the quoted text is lost.
-/

namespace TextTidy.Css

/-! ## Where a declaration can end within the next one -/

section

variable {u m : Text}

theorem not_endsDeclaration_of_colonFollows (h : colonFollows m = true) :
    endsDeclaration m = false := by
  obtain ⟨gap, rest, rfl, hgap⟩ := colonFollows_iff.mp h
  have hcolon : ∀ rest, propertyFollows (.char ':' :: rest) = false := fun rest => rfl
  rw [endsDeclaration_eq, closes_gap hgap (by decide)]
  cases gap with
  | nil => rfl
  | cons b gap =>
    rw [List.cons_append, nextProperty, ← List.cons_append, Text.trimStart_gap hgap (by decide),
      hcolon, Bool.and_false]
    rfl

theorem not_endsDeclaration_of_isNameChar {c : CodePoint} (hc : isNameChar c = true) (s : Text) :
    endsDeclaration (c :: s) = false := by
  have hname : ∀ x ∈ [c], isNameChar x = true := by simpa using hc
  exact (OpenAlike.name_front hname (List.cons_ne_nil c []) s).2.2.1

/-- No declaration ends within the blanks before a colon. -/
theorem not_endsDeclaration_of_gap (h : colonFollows (u ++ m) = true)
    (hu : colonFollows u = false) : endsDeclaration m = false := by
  induction u with
  | nil => exact not_endsDeclaration_of_colonFollows h
  | cons c u ih =>
    rw [List.cons_append, colonFollows_cons] at h
    rw [colonFollows_cons] at hu
    cases hc : c.isBlank with
    | true =>
      rw [hc] at h hu
      exact ih h hu
    | false =>
      rw [hc] at h hu
      exact absurd (h.symm.trans hu) (by decide)

/-- No declaration ends within a name and the blanks before its colon. -/
theorem not_endsDeclaration_of_name (h : colonFollows ((u ++ m).dropWhile isNameChar) = true)
    (hu : colonFollows (u.dropWhile isNameChar) = false) : endsDeclaration m = false := by
  induction u with
  | nil =>
    cases m with
    | nil => rfl
    | cons c m =>
      cases hc : isNameChar c with
      | true => exact not_endsDeclaration_of_isNameChar hc m
      | false =>
        rw [List.nil_append, List.dropWhile_cons_of_neg (by simp [hc])] at h
        exact not_endsDeclaration_of_colonFollows h
  | cons c u ih =>
    cases hc : isNameChar c with
    | true =>
      rw [List.cons_append, List.dropWhile_cons_of_pos hc] at h
      rw [List.dropWhile_cons_of_pos hc] at hu
      exact ih h hu
    | false =>
      rw [List.cons_append, List.dropWhile_cons_of_neg (by simp [hc])] at h
      rw [List.dropWhile_cons_of_neg (by simp [hc])] at hu
      exact not_endsDeclaration_of_gap h hu

theorem isBlank_of_propertyFollows (h : propertyFollows (Text.trimStart (u ++ m)) = true)
    (hu : propertyFollows (Text.trimStart u) = false) (hends : endsDeclaration m = true) :
    Text.isBlank u = true := by
  induction u with
  | nil => rfl
  | cons c u ih =>
    cases hc : c.isBlank with
    | true =>
      rw [List.cons_append, trimStart_blank hc] at h
      rw [trimStart_blank hc] at hu
      exact Text.isBlank_cons.mpr ⟨hc, ih h hu⟩
    | false =>
      rw [List.cons_append, Text.trimStart_cons hc, propertyFollows, Bool.and_eq_true] at h
      rw [Text.trimStart_cons hc, propertyFollows, h.1, Bool.true_and] at hu
      rw [not_endsDeclaration_of_name h.2 hu] at hends
      cases hends

/-- A declaration that may end within blanks and the next property ends among the blanks, or behind
that property's colon. -/
theorem isBlank_of_nextProperty (h : nextProperty (u ++ m) = true) (hu : nextProperty u = false)
    (hends : endsDeclaration m = true) : Text.isBlank u = true := by
  cases u with
  | nil => rfl
  | cons c u =>
    obtain ⟨hc, hnext⟩ := Bool.and_eq_true_iff.mp h
    rw [nextProperty, hc, Bool.true_and] at hu
    exact isBlank_of_propertyFollows hnext hu hends

end

/-! ## The semicolon inside quotes -/

theorem insertSemicolons_blank {b : CodePoint} (hb : b.isBlank = true) (s : Text) :
    insertSemicolons (b :: s) = b :: insertSemicolons s := by
  have hgap : Text.isBlank [b] = true := Text.isBlank_cons.mpr ⟨hb, rfl⟩
  exact unterminated_ignoresGaps.replace_gap hgap s

/-- The pass writes no marks, so the same quotes are closed behind it. -/
theorem closesQuote_insertSemicolons (s : Text) :
    closesQuote (insertSemicolons s) = closesQuote s := by
  have hcongr : ∀ (front : Text) {t u : Text}, closesQuote t = closesQuote u →
      closesQuote (front ++ t) = closesQuote (front ++ u) := by
    intro front t u h
    rw [closesQuote, closesQuote, List.find?_append, List.find?_append]
    cases front.find? isQuoteMark with
    | none => simpa [closesQuote] using h
    | some q => rfl
  refine insertSemicolons_relates (R := fun s o => closesQuote o = closesQuote s) rfl ?_ ?_ s
  · intro c s o h
    exact hcongr [c] h
  · intro decl more o _ _ h
    exact hcongr decl ((closesQuote_cons (by decide) o).trans h)

theorem not_nextProperty_of_isBlank {gap : Text} (hgap : Text.isBlank gap = true) :
    nextProperty gap = false := by
  cases gap with
  | nil => rfl
  | cons b gap =>
    rw [nextProperty, Text.trimStart_of_isBlank hgap]
    exact Bool.and_false _

/-- Blanks before the next property may be cut anywhere, and a blank comes next. -/
theorem exists_blank_of_gap {gap more : Text} (hgap : Text.isBlank gap = true)
    (hnext : nextProperty (gap ++ more) = true) (hends : endsDeclaration more = true) :
    ∃ b rest, more = b :: rest ∧ b.isBlank = true := by
  rw [endsDeclaration_eq, Bool.or_eq_true_iff] at hends
  rcases hends with hmore | hcloses
  · cases more with
    | nil => cases hmore
    | cons b rest => exact ⟨b, rest, rfl, (Bool.and_eq_true_iff.mp hmore).1⟩
  · obtain ⟨gap', rest, rfl, hgap'⟩ := closes_iff.mp hcloses
    rw [← List.append_assoc, nextProperty_append_delimiter (by decide),
      not_nextProperty_of_isBlank (Text.isBlank_append.mpr ⟨hgap, hgap'⟩)] at hnext
    cases hnext

/-- A declaration that runs on behind the first unterminated one stands behind it as a whole. -/
theorem exists_later {pre decl front u more : Text} (hdecl : IsDeclaration decl)
    (hends : endsDeclaration more = true) (hnone : openValue? (u ++ more) = none) (hne : u ≠ [])
    (hsplit : pre ++ decl = front ++ u) : ∃ v, pre = front ++ v ∧ u = v ++ decl := by
  have hrun : ¬IsRun u := fun hrun => by
    have hopen := openValue?_isSome hne hrun hends
    rw [hnone] at hopen
    cases hopen
  rcases List.append_eq_append_iff.mp hsplit with ⟨v, -, rfl⟩ | ⟨v, rfl, rfl⟩
  · exact absurd (isRun_append.mp hdecl.isRun).2 hrun
  · exact ⟨v, rfl, rfl⟩

/-- A semicolon that is written among the blanks between a declaration and the next property stands
before a blank, and inside quotes if the declaration runs on there. -/
theorem exists_cut_at {inside : Bool} {pre decl pre' decl' more : Text} (gap : Text)
    (hdecl : IsDeclaration decl) (hnext : nextProperty (gap ++ more) = true)
    (hopen : opensQuoteFrom inside (pre ++ decl) = true)
    (hclose : closesQuote (gap ++ more) = true) (hends : endsDeclaration more = true)
    (hfront : pre' ++ decl' = pre ++ decl ++ gap)
    (hruns : ¬RunsOn (pre' ++ decl' ++ .char ';' :: insertSemicolons more)) :
    ∃ front b behind, pre' ++ decl' ++ .char ';' :: insertSemicolons more =
        front ++ .char ';' :: b :: behind ∧
      b.isBlank = true ∧ opensQuoteFrom inside front = true ∧ closesQuote behind = true := by
  have hgap : Text.isBlank gap = true := by
    refine isBlank_of_nextProperty hnext ?_ hends
    rw [← Bool.not_eq_true]
    intro hstill
    refine hruns ⟨pre, decl, gap ++ .char ';' :: insertSemicolons more, ?_, hdecl,
      nextProperty_append hstill _⟩
    rw [hfront, List.append_assoc]
  obtain ⟨b, behind, rfl, hb⟩ := exists_blank_of_gap hgap hnext hends
  have hmarkless := markless_of_isBlank hgap
  have hmark := not_isQuoteMark_of_isBlank hb
  refine ⟨pre' ++ decl', b, insertSemicolons behind, ?_, hb, ?_, ?_⟩
  · rw [insertSemicolons_blank hb]
  · rw [hfront, opensQuoteFrom_append, hopen, opensQuoteFrom_markless hmarkless]
  · rw [closesQuote_append_markless hmarkless, closesQuote_cons hmark] at hclose
    rw [closesQuote_insertSemicolons, hclose]

/-- Where a declaration runs on inside quotes and none runs on any more behind the semicolon pass,
the pass has written a semicolon before a blank inside quotes. -/
theorem exists_cut {inside : Bool} {s : Text} (h : RunsOnInQuotesFrom inside s)
    (hruns : ¬RunsOn (insertSemicolons s)) :
    ∃ front b behind, insertSemicolons s = front ++ .char ';' :: b :: behind ∧ b.isBlank = true ∧
      opensQuoteFrom inside front = true ∧ closesQuote behind = true := by
  induction hn : s.length using Nat.strongRecOn generalizing s inside with
  | ind n ih =>
    subst hn
    obtain ⟨pre, decl, more, hs, hdecl, hnext, hopen, hclose⟩ := h
    have hends : endsDeclaration more = true := by rw [endsDeclaration_eq, hnext, Bool.true_or]
    obtain ⟨pre', decl', more', hs', hdecl', hends', hnone, hfirst⟩ :=
      exists_first_unterminated (lacksSemicolon_iff.mpr ⟨pre, decl, more, hs, hdecl, hends⟩)
    rw [hfirst] at hruns ⊢
    -- the first semicolon that is written stands among the blanks before the next property, or
    -- before the declaration that runs on
    rcases List.append_eq_append_iff.mp (hs.symm.trans hs') with ⟨gap, hfront, rfl⟩ |
      ⟨u, hfront, rfl⟩
    · exact exists_cut_at gap hdecl hnext hopen hclose hends' hfront hruns
    · by_cases hu : u = []
      · subst hu
        have hfront' : pre' ++ decl' = pre ++ decl ++ [] := by simpa using hfront.symm
        exact exists_cut_at [] hdecl hnext hopen hclose hends' hfront' hruns
      · obtain ⟨v, rfl, rfl⟩ := exists_later hdecl hends hnone hu hfront
        have hlater : RunsOnInQuotesFrom (opensQuoteFrom inside (pre' ++ decl'))
            (v ++ decl ++ more) := by
          refine ⟨v, decl, more, rfl, hdecl, hnext, ?_, hclose⟩
          rwa [← opensQuoteFrom_append, ← List.append_assoc]
        have hlen : (v ++ decl ++ more).length < s.length := by
          have := List.length_pos_iff.mpr hdecl'.ne_nil
          rw [hs']
          simp only [List.length_append]
          omega
        have hrest : ¬RunsOn (insertSemicolons (v ++ decl ++ more)) := by
          intro h
          have hwhole := h.append (pre' ++ decl' ++ [.char ';'])
          rw [← List.append_cons] at hwhole
          exact hruns hwhole
        obtain ⟨front, b, behind, hcut, hb, hfront', hbehind⟩ := ih _ hlen hlater hrest rfl
        refine ⟨pre' ++ decl' ++ .char ';' :: front, b, behind, ?_, hb, ?_, hbehind⟩
        · rw [hcut]
          simp
        · rw [opensQuoteFrom_insert (by decide), opensQuoteFrom_append, hfront']

/-! ## What a cut leaves -/

/-- A text without its semicolons. -/
def withoutSemicolons (s : Text) : Text := s.filter (· != .char ';')

theorem withoutSemicolons_append (s t : Text) :
    withoutSemicolons (s ++ t) = withoutSemicolons s ++ withoutSemicolons t :=
  List.filter_append ..

theorem withoutSemicolons_cons {c : CodePoint} (hc : c ≠ .char ';') (s : Text) :
    withoutSemicolons (c :: s) = c :: withoutSemicolons s :=
  List.filter_cons_of_pos (bne_iff_ne.mpr hc)

theorem withoutSemicolons_semicolon (s : Text) :
    withoutSemicolons (.char ';' :: s) = withoutSemicolons s :=
  List.filter_cons_of_neg (by decide)

theorem withoutSemicolons_insertSemicolons (s : Text) :
    withoutSemicolons (insertSemicolons s) = withoutSemicolons s := by
  refine insertSemicolons_relates (R := fun s o => withoutSemicolons o = withoutSemicolons s) rfl
    ?_ ?_ s
  · intro c s o h
    rw [← List.singleton_append, withoutSemicolons_append, h, ← withoutSemicolons_append]
    rfl
  · intro decl more o _ _ h
    rw [withoutSemicolons_append, withoutSemicolons_append, withoutSemicolons_semicolon, h]

theorem withoutSemicolons_keepsQuotes : KeepsQuotes withoutSemicolons where
  markless _ hs c hc := hs c (List.mem_filter.mp hc).1
  cut s q rest _ hq := by
    have hne : q ≠ .char ';' := by
      rcases isQuoteMark_iff.mp hq with rfl | rfl <;> decide
    rw [withoutSemicolons_append, withoutSemicolons_cons hne]

/-- The semicolon pass writes nothing but semicolons into the quoted texts. -/
theorem quotedTexts_insertSemicolons (s : Text) :
    (quotedTexts (insertSemicolons s)).map withoutSemicolons =
      (quotedTexts s).map withoutSemicolons := by
  rw [← withoutSemicolons_keepsQuotes.quotedTexts_eq, withoutSemicolons_insertSemicolons,
    withoutSemicolons_keepsQuotes.quotedTexts_eq]

/-- How many characters other than semicolons a text has. -/
def weight (s : Text) : Nat := (withoutSemicolons s).length

theorem weight_append (s t : Text) : weight (s ++ t) = weight s + weight t := by
  rw [weight, withoutSemicolons_append, List.length_append, weight, weight]

theorem weight_cons (c : CodePoint) (s : Text) :
    weight (c :: s) = weight s + (c != .char ';').toNat := by
  by_cases hc : c = .char ';'
  · subst hc
    rw [weight, withoutSemicolons_semicolon]
    rfl
  · rw [weight, withoutSemicolons_cons hc, bne_iff_ne.mpr hc]
    rfl

theorem weight_blank {b : CodePoint} (hb : b.isBlank = true) (s : Text) :
    weight (b :: s) = weight s + 1 := by
  have hne : b ≠ .char ';' := by
    rintro rfl
    exact absurd hb (by decide)
  rw [weight_cons, bne_iff_ne.mpr hne]
  rfl

/-- Compaction writes a space only for a gap that it has passed, so a character that it saves at the
end of a text is saved in the whole. -/
theorem weight_squeezeFrom_cons {s : Text} (c : CodePoint) (saved : Nat)
    (h : ∀ after gap, weight (squeezeFrom after gap s) + saved ≤
      weight s + (gap && !after).toNat) (after gap : Bool) :
    weight (squeezeFrom after gap (c :: s)) + saved ≤
      weight (c :: s) + (gap && !after).toNat := by
  rcases squeezeFrom_cases after gap c s with ⟨hc, hs⟩ | ⟨-, -, hs⟩ | ⟨-, -, hs⟩ |
    ⟨rfl, rfl, -, -, -, hs⟩
  · have hrest := h after true
    have hle : (true && !after).toNat ≤ 1 := Bool.toNat_le _
    rw [hs, weight_blank hc]
    omega
  · have hrest := h true false
    rw [hs, weight_cons]
    simp only [Bool.false_and, Bool.toNat_false] at hrest
    omega
  · have hrest := h (isTight c) false
    rw [hs, weight_cons, weight_cons]
    simp only [Bool.false_and, Bool.toNat_false] at hrest
    omega
  · have hrest := h false false
    rw [hs, weight_blank (by decide), weight_cons, weight_cons]
    simp only [Bool.false_and, Bool.toNat_false, Bool.not_false, Bool.and_self,
      Bool.toNat_true] at hrest ⊢
    omega

theorem weight_squeezeFrom (after gap : Bool) (s : Text) :
    weight (squeezeFrom after gap s) ≤ weight s + (gap && !after).toNat := by
  induction s generalizing after gap with
  | nil => exact Nat.zero_le _
  | cons c s ih => exact weight_squeezeFrom_cons c 0 ih after gap

/-- Compaction writes nothing for a blank behind a semicolon. -/
theorem weight_squeezeFrom_cut {b : CodePoint} (hb : b.isBlank = true) (after gap : Bool)
    (s t : Text) :
    weight (squeezeFrom after gap (s ++ .char ';' :: b :: t)) + 1 ≤
      weight (s ++ .char ';' :: b :: t) + (gap && !after).toNat := by
  induction s generalizing after gap with
  | nil =>
    have hrest := weight_squeezeFrom true true t
    have hkept : weight (squeezeFrom after gap (.char ';' :: b :: t)) ≤ weight t := by
      rcases squeezeFrom_cases after gap (.char ';') (b :: t) with ⟨hc, -⟩ | ⟨-, -, h⟩ |
        ⟨-, -, h⟩ | ⟨-, -, -, htight, -⟩
      · exact absurd hc (by decide)
      · rw [h, squeezeFrom_blank hb]
        exact hrest
      · have htight : isTight (.char ';') = true := by decide
        rw [h, htight, squeezeFrom_blank hb, weight_cons]
        exact hrest
      · exact absurd htight (by decide)
    rw [List.nil_append, weight_cons, weight_blank hb]
    omega
  | cons c s ih => exact weight_squeezeFrom_cons c 1 ih after gap

/-- A quoted text with a blank behind a semicolon is not its own compact form, not even up to
semicolons. -/
theorem withoutSemicolons_packed_ne {b : CodePoint} (hb : b.isBlank = true) {s t : Text}
    (hs : Markless (s ++ .char ';' :: b :: t)) :
    withoutSemicolons (packed (s ++ .char ';' :: b :: t)) ≠
      withoutSemicolons (s ++ .char ';' :: b :: t) := by
  intro h
  have hquoted : ∀ body, weight (inQuotes body) = weight body + 2 := by
    intro body
    rw [inQuotes, weight_cons, weight_append]
    rfl
  have hlost := weight_squeezeFrom_cut hb true false (.char '"' :: s) (t ++ [.char '"'])
  have hcompact := congrArg weight (compact_inQuotes hs)
  have hassoc : inQuotes (s ++ .char ';' :: b :: t) =
      .char '"' :: s ++ .char ';' :: b :: (t ++ [.char '"']) := by simp [inQuotes]
  rw [compact_eq_squeezeFrom, hquoted, hassoc] at hcompact
  rw [hcompact, ← hassoc, hquoted, weight, weight, h] at hlost
  simp at hlost

end TextTidy.Css
