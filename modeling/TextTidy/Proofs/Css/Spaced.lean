import TextTidy.Proofs.Css.Alike
import TextTidy.Proofs.Css.Squeeze

/-!
# Texts that differ in the length of their gaps

Two texts are spaced alike if they have the same characters and gaps at the same places, each of any
length; before a semicolon a gap may also be missing. What collapses to the same text is spaced
alike, and texts that are spaced alike look the same to every look ahead, have the same blocks and
the same compact form.
-/

namespace TextTidy.Css

/-- Two gaps of any length, or none at either place. -/
structure SameGap (gap gap' : Text) : Prop where
  blank : Text.isBlank gap = true
  blank' : Text.isBlank gap' = true
  nil_iff : gap = [] ↔ gap' = []

theorem SameGap.append {gap gap' more more' : Text} (h : SameGap gap gap')
    (h' : SameGap more more') : SameGap (gap ++ more) (gap' ++ more') where
  blank := Text.isBlank_append.mpr ⟨h.blank, h'.blank⟩
  blank' := Text.isBlank_append.mpr ⟨h.blank', h'.blank'⟩
  nil_iff := by rw [List.append_eq_nil_iff, List.append_eq_nil_iff, h.nil_iff, h'.nil_iff]

theorem SameGap.refl {gap : Text} (h : Text.isBlank gap = true) : SameGap gap gap := ⟨h, h, Iff.rfl⟩

theorem SameGap.isEmpty_eq {gap gap' : Text} (h : SameGap gap gap') :
    gap.isEmpty = gap'.isEmpty := by
  rw [Bool.eq_iff_iff, List.isEmpty_iff, List.isEmpty_iff, h.nil_iff]

/-- The same characters with gaps at the same places, before semicolons or not. -/
inductive Spaced : Text → Text → Prop where
  | blank {gap gap' : Text} (hgap : SameGap gap gap') : Spaced gap gap'
  | char {gap gap' s o : Text} {c : CodePoint} (hgap : SameGap gap gap')
      (hc : c.isBlank = false) : Spaced s o → Spaced (gap ++ c :: s) (gap' ++ c :: o)
  | ended {gap gap' s o : Text} (hgap : Text.isBlank gap = true)
      (hgap' : Text.isBlank gap' = true) :
      Spaced s o → Spaced (gap ++ .char ';' :: s) (gap' ++ .char ';' :: o)

/-- Where a gap ends is plain. -/
theorem gap_inj {gap gap' s s' : Text} {c c' : CodePoint} (hgap : Text.isBlank gap = true)
    (hgap' : Text.isBlank gap' = true) (hc : c.isBlank = false) (hc' : c'.isBlank = false)
    (h : gap ++ c :: s = gap' ++ c' :: s') : gap = gap' ∧ c = c' ∧ s = s' := by
  have hfront := congrArg Text.leadingBlanks h
  have hback := congrArg Text.trimStart h
  rw [Text.leadingBlanks_gap hgap hc, Text.leadingBlanks_gap hgap' hc'] at hfront
  rw [Text.trimStart_gap hgap hc, Text.trimStart_gap hgap' hc'] at hback
  exact ⟨hfront, List.cons.inj hback⟩

/-- A character in a text stands behind its first gap, or further on. -/
theorem gap_cut {front behind gap rest : Text} {c x : CodePoint} (hc : c.isBlank = false)
    (hgap : Text.isBlank gap = true) (h : front ++ c :: behind = gap ++ x :: rest) :
    (front = gap ∧ c = x ∧ behind = rest) ∨
      ∃ more, front = gap ++ x :: more ∧ more ++ c :: behind = rest := by
  rcases List.append_eq_append_iff.mp h with ⟨more, rfl, hmore⟩ | ⟨more, rfl, hmore⟩
  · cases more with
    | nil =>
      obtain ⟨rfl, rfl⟩ := List.cons.inj hmore
      exact Or.inl ⟨by rw [List.append_nil], rfl, rfl⟩
    | cons y more =>
      obtain ⟨rfl, -⟩ := List.cons.inj hmore
      have := (Text.isBlank_cons.mp (Text.isBlank_append.mp hgap).2).1
      rw [hc] at this
      cases this
  · cases more with
    | nil =>
      obtain ⟨rfl, rfl⟩ := List.cons.inj hmore
      exact Or.inl ⟨by rw [List.append_nil], rfl, rfl⟩
    | cons y more =>
      obtain ⟨rfl, rfl⟩ := List.cons.inj hmore
      exact Or.inr ⟨more, rfl, rfl⟩

theorem semicolon_not_isBlank : (CodePoint.char ';').isBlank = false := by decide

namespace Spaced

variable {s o t u : Text}

theorem nil : Spaced [] [] := .blank (.refl Text.isBlank_nil)

theorem cons {c : CodePoint} (hc : c.isBlank = false) (h : Spaced s o) :
    Spaced (c :: s) (c :: o) :=
  .char (.refl Text.isBlank_nil) hc h

theorem refl (s : Text) : Spaced s s := by
  induction s using Text.gap_induction with
  | blank gap hgap => exact .blank (.refl hgap)
  | char gap c s hgap hc ih => exact .char (.refl hgap) hc ih

theorem symm (h : Spaced s o) : Spaced o s := by
  induction h with
  | blank hgap => exact .blank ⟨hgap.blank', hgap.blank, hgap.nil_iff.symm⟩
  | char hgap hc _ ih => exact .char ⟨hgap.blank', hgap.blank, hgap.nil_iff.symm⟩ hc ih
  | ended hgap hgap' _ ih => exact .ended hgap' hgap ih

theorem append (h : Spaced s o) (h' : Spaced t u) : Spaced (s ++ t) (o ++ u) := by
  induction h with
  | blank hgap =>
    cases h' with
    | blank hmore => exact .blank (hgap.append hmore)
    | char hmore hc hs =>
      rw [← List.append_assoc, ← List.append_assoc]
      exact .char (hgap.append hmore) hc hs
    | ended hmore hmore' hs =>
      rw [← List.append_assoc, ← List.append_assoc]
      exact .ended (Text.isBlank_append.mpr ⟨hgap.blank, hmore⟩)
        (Text.isBlank_append.mpr ⟨hgap.blank', hmore'⟩) hs
  | char hgap hc _ ih =>
    rw [List.append_assoc, List.append_assoc, List.cons_append, List.cons_append]
    exact .char hgap hc ih
  | ended hgap hgap' _ ih =>
    rw [List.append_assoc, List.append_assoc, List.cons_append, List.cons_append]
    exact .ended hgap hgap' ih

/-- Texts that collapse to the same text are spaced alike. -/
theorem of_collapseBlanks (h : collapseBlanks s = collapseBlanks o) : Spaced s o := by
  have hempty : ∀ {gap gap' : Text}, spaceOf gap = spaceOf gap' → (gap = [] ↔ gap' = []) := by
    intro gap gap' h
    cases gap <;> cases gap' <;> simp_all [spaceOf]
  induction s using Text.gap_induction generalizing o with
  | blank gap hgap =>
    rw [collapseBlanks_of_isBlank hgap] at h
    rcases Text.exists_span CodePoint.isBlank o with hblank | ⟨gap', c, rest, rfl, hgap', hc⟩
    · have hgap' := Text.isBlank_iff.mpr hblank
      rw [collapseBlanks_of_isBlank hgap'] at h
      exact .blank ⟨hgap, hgap', hempty h⟩
    · have hgap' := Text.isBlank_iff.mpr hgap'
      rw [collapseBlanks_gap hgap' hc] at h
      have hspace := isBlank_spaceOf gap
      rw [h, Text.isBlank_append, Text.isBlank_cons, hc] at hspace
      cases hspace.2.1
  | char gap c s hgap hc ih =>
    rw [collapseBlanks_gap hgap hc] at h
    rcases Text.exists_span CodePoint.isBlank o with hblank | ⟨gap', c', rest, rfl, hgap', hc'⟩
    · have hgap' := Text.isBlank_iff.mpr hblank
      rw [collapseBlanks_of_isBlank hgap'] at h
      have hspace := isBlank_spaceOf o
      rw [← h, Text.isBlank_append, Text.isBlank_cons, hc] at hspace
      cases hspace.2.1
    · have hgap' := Text.isBlank_iff.mpr hgap'
      rw [collapseBlanks_gap hgap' hc'] at h
      obtain ⟨hspace, rfl, hrest⟩ := gap_inj (isBlank_spaceOf gap) (isBlank_spaceOf gap') hc hc' h
      exact .char ⟨hgap, hgap', hempty hspace⟩ hc (ih hrest)

/-! ## Cutting both texts at a character -/

theorem gap_front {gap : Text} {c : CodePoint} (h : Spaced (gap ++ c :: s) o)
    (hgap : Text.isBlank gap = true) (hc : c.isBlank = false) :
    ∃ gap' rest, o = gap' ++ c :: rest ∧ Text.isBlank gap' = true ∧
      (c ≠ .char ';' → (gap = [] ↔ gap' = [])) ∧ Spaced s rest := by
  generalize hs : gap ++ c :: s = whole at h
  cases h with
  | blank hsame =>
    have := hsame.blank
    rw [← hs, Text.isBlank_append, Text.isBlank_cons, hc] at this
    cases this.2.1
  | char hsame hc' hrest =>
    obtain ⟨rfl, rfl, rfl⟩ := gap_inj hgap hsame.blank hc hc' hs
    exact ⟨_, _, rfl, hsame.blank', fun _ => hsame.nil_iff, hrest⟩
  | ended hgap₁ hgap₂ hrest =>
    obtain ⟨rfl, rfl, rfl⟩ := gap_inj hgap hgap₁ hc semicolon_not_isBlank hs
    exact ⟨_, _, rfl, hgap₂, fun h => absurd rfl h, hrest⟩

theorem front {c : CodePoint} (h : Spaced (c :: s) o) (hc : c.isBlank = false)
    (hne : c ≠ .char ';') : ∃ rest, o = c :: rest ∧ Spaced s rest := by
  have hfront : Spaced ([] ++ c :: s) o := h
  obtain ⟨gap', rest, rfl, -, hnil, hrest⟩ := hfront.gap_front Text.isBlank_nil hc
  obtain rfl := (hnil hne).mp rfl
  exact ⟨rest, rfl, hrest⟩

theorem name_front {name : Text} (hchars : ∀ c ∈ name, isNameChar c = true)
    (h : Spaced (name ++ s) o) : ∃ rest, o = name ++ rest ∧ Spaced s rest := by
  induction name generalizing o with
  | nil => exact ⟨o, rfl, h⟩
  | cons c name ih =>
    rw [List.forall_mem_cons] at hchars
    have hne : c ≠ .char ';' := by
      rintro rfl
      exact absurd hchars.1 (by decide)
    obtain ⟨tail, rfl, htail⟩ := h.front (not_isBlank_of_isNameChar hchars.1) hne
    obtain ⟨rest, rfl, hrest⟩ := ih hchars.2 htail
    exact ⟨rest, rfl, hrest⟩

theorem split {c : CodePoint} (hc : c.isBlank = false) (h : Spaced (s ++ c :: t) o) :
    ∃ s' t', o = s' ++ c :: t' ∧ Spaced (s ++ [c]) (s' ++ [c]) ∧ Spaced t t' := by
  generalize hs : s ++ c :: t = whole at h
  induction h generalizing s with
  | blank hsame =>
    have := hsame.blank
    rw [← hs, Text.isBlank_append, Text.isBlank_cons, hc] at this
    cases this.2.1
  | @char gap gap' rest rest' x hsame hx hrest ih =>
    rcases gap_cut hc hsame.blank hs with ⟨rfl, rfl, rfl⟩ | ⟨more, rfl, hmore⟩
    · exact ⟨gap', rest', rfl, .char hsame hx .nil, hrest⟩
    · obtain ⟨s', t', rfl, hfront, ht⟩ := ih hmore
      refine ⟨gap' ++ x :: s', t', by simp, ?_, ht⟩
      rw [List.append_assoc, List.append_assoc]
      exact .char hsame hx hfront
  | @ended gap gap' rest rest' hgap hgap' hrest ih =>
    rcases gap_cut hc hgap hs with ⟨rfl, rfl, rfl⟩ | ⟨more, rfl, hmore⟩
    · exact ⟨gap', rest', rfl, .ended hgap hgap' .nil, hrest⟩
    · obtain ⟨s', t', rfl, hfront, ht⟩ := ih hmore
      refine ⟨gap' ++ .char ';' :: s', t', by simp, ?_, ht⟩
      rw [List.append_assoc, List.append_assoc]
      exact .ended hgap hgap' hfront

/-! ## Looking ahead -/

theorem isBlank_eq (h : Spaced s o) : Text.isBlank s = Text.isBlank o := by
  have hchar : ∀ {gap t : Text} {c : CodePoint}, c.isBlank = false →
      Text.isBlank (gap ++ c :: t) = false := by
    intro gap t c hc
    rw [← Bool.not_eq_true, Text.isBlank_append, Text.isBlank_cons, hc]
    rintro ⟨-, h, -⟩
    cases h
  cases h with
  | blank hgap => rw [hgap.blank, hgap.blank']
  | char _ hc _ => rw [hchar hc, hchar hc]
  | ended _ _ _ => rw [hchar semicolon_not_isBlank, hchar semicolon_not_isBlank]

theorem head?_trimStart_eq (h : Spaced s o) :
    (Text.trimStart s).head? = (Text.trimStart o).head? := by
  cases h with
  | blank hgap => rw [Text.trimStart_of_isBlank hgap.blank, Text.trimStart_of_isBlank hgap.blank']
  | char hgap hc _ =>
    rw [Text.trimStart_gap hgap.blank hc, Text.trimStart_gap hgap.blank' hc]
    rfl
  | ended hgap hgap' _ =>
    rw [Text.trimStart_gap hgap semicolon_not_isBlank,
      Text.trimStart_gap hgap' semicolon_not_isBlank]
    rfl

theorem closes_eq (h : Spaced s o) : closes s = closes o := by
  rw [closes, closes, h.head?_trimStart_eq]

theorem colonFollows_eq (h : Spaced s o) : colonFollows s = colonFollows o := by
  have hhead : ∀ s, colonFollows s = ((Text.trimStart s).head? == some (.char ':')) := by
    intro s
    rw [Bool.eq_iff_iff, beq_iff_eq, List.head?_eq_some_iff]
    unfold colonFollows
    split <;> simp_all
  rw [hhead, hhead, h.head?_trimStart_eq]

/-- Also when the characters in front still belong to a name. -/
theorem colonFollows_dropWhile_eq (h : Spaced s o) :
    colonFollows (s.dropWhile isNameChar) = colonFollows (o.dropWhile isNameChar) := by
  have hkeep : ∀ {t : Text}, (∀ c ∈ t.head?, isNameChar c = false) →
      t.dropWhile isNameChar = t := by
    intro t ht
    cases t with
    | nil => rfl
    | cons c t => rw [List.dropWhile_cons_of_neg (by simp [ht c rfl])]
  have hgap : ∀ {gap : Text}, Text.isBlank gap = true → gap ≠ [] → ∀ t,
      ∀ c ∈ (gap ++ t).head?, isNameChar c = false := by
    intro gap hgap hne t c hc
    cases gap with
    | nil => exact absurd rfl hne
    | cons b gap =>
      obtain rfl : b = c := by simpa using hc
      exact not_isNameChar_of_isBlank (Text.isBlank_cons.mp hgap).1
  have hsemi : ∀ {gap : Text}, Text.isBlank gap = true → ∀ t,
      ∀ c ∈ (gap ++ CodePoint.char ';' :: t).head?, isNameChar c = false := by
    intro gap hblank t c hc
    by_cases hne : gap = []
    · subst hne
      obtain rfl : CodePoint.char ';' = c := by simpa using hc
      decide
    · exact hgap hblank hne _ c hc
  induction h with
  | @blank gap gap' hsame =>
    by_cases hne : gap = []
    · rw [hne, hsame.nil_iff.mp hne]
    · have hfront := hgap hsame.blank hne []
      have hfront' := hgap hsame.blank' (mt hsame.nil_iff.mpr hne) []
      rw [List.append_nil] at hfront hfront'
      rw [hkeep hfront, hkeep hfront', (Spaced.blank hsame).colonFollows_eq]
  | @char gap gap' s o c hsame hc hs ih =>
    by_cases hne : gap = []
    · subst hne
      rw [hsame.nil_iff.mp rfl, List.nil_append, List.nil_append]
      cases hname : isNameChar c with
      | true => rw [List.dropWhile_cons_of_pos hname, List.dropWhile_cons_of_pos hname, ih]
      | false =>
        rw [hkeep (by simp [hname]), hkeep (by simp [hname]), (Spaced.cons hc hs).colonFollows_eq]
    · rw [hkeep (hgap hsame.blank hne _), hkeep (hgap hsame.blank' (mt hsame.nil_iff.mpr hne) _),
        (Spaced.char hsame hc hs).colonFollows_eq]
  | ended hgap₁ hgap₂ hs _ =>
    rw [hkeep (hsemi hgap₁ _), hkeep (hsemi hgap₂ _), (Spaced.ended hgap₁ hgap₂ hs).colonFollows_eq]

theorem propertyFollows_cons_eq (h : Spaced s o) (c : CodePoint) :
    propertyFollows (c :: s) = propertyFollows (c :: o) := by
  rw [propertyFollows, propertyFollows, h.colonFollows_dropWhile_eq]

end Spaced

/-- Behind a gap another property comes next exactly if the gap is there. -/
theorem nextProperty_gap {gap : Text} (hgap : Text.isBlank gap = true) {c : CodePoint}
    (hc : c.isBlank = false) (s : Text) :
    nextProperty (gap ++ c :: s) = (!gap.isEmpty && propertyFollows (c :: s)) := by
  cases gap with
  | nil =>
    rw [List.nil_append, nextProperty, hc]
    rfl
  | cons b gap =>
    have htrim := Text.trimStart_gap hgap hc s
    rw [List.cons_append] at htrim
    rw [List.cons_append, nextProperty, htrim, (Text.isBlank_cons.mp hgap).1]
    rfl

theorem nextProperty_of_isBlank {gap : Text} (hgap : Text.isBlank gap = true) :
    nextProperty gap = false := by
  cases gap with
  | nil => rfl
  | cons b gap =>
    rw [nextProperty, Text.trimStart_of_isBlank hgap]
    exact Bool.and_false _

theorem propertyFollows_of_not_isNameChar {c : CodePoint} (hc : isNameChar c = false) (s : Text) :
    propertyFollows (c :: s) = false := by
  rw [propertyFollows, hc, Bool.false_and]

namespace Spaced

variable {s o : Text}

/-! ## Braces and blocks -/

theorem filter_eq (h : Spaced s o) : s.filter (!·.isBlank) = o.filter (!·.isBlank) := by
  have hgap : ∀ {gap : Text}, Text.isBlank gap = true → gap.filter (!·.isBlank) = [] := by
    intro gap hgap
    rw [List.filter_eq_nil_iff]
    intro b hb
    simp [Text.isBlank_iff.mp hgap b hb]
  induction h with
  | blank hsame => rw [hgap hsame.blank, hgap hsame.blank']
  | char hsame _ _ ih =>
    simp only [List.filter_append, List.filter_cons, hgap hsame.blank, hgap hsame.blank', ih]
  | ended hgap₁ hgap₂ _ ih =>
    simp only [List.filter_append, List.filter_cons, hgap hgap₁, hgap hgap₂, ih]

end Spaced

/-- The blanks of a text make no difference to its braces and blocks. -/
theorem alike_filter (s : Text) : Alike s (s.filter (!·.isBlank)) := by
  induction s with
  | nil => exact .nil
  | cons c s ih =>
    cases hc : c.isBlank with
    | true =>
      rw [List.filter_cons_of_neg (by simp [hc])]
      exact .dropped hc ih
    | false =>
      rw [List.filter_cons_of_pos (by simp [hc])]
      exact .keep c ih

namespace Spaced

variable {s o : Text}

theorem balance_eq (h : Spaced s o) : balance s = balance o := by
  rw [← (alike_filter s).balance_eq, ← (alike_filter o).balance_eq, h.filter_eq]

theorem wellFormed_eq (h : Spaced s o) : wellFormed s = wellFormed o := by
  rw [← (alike_filter s).wellFormed_eq, ← (alike_filter o).wellFormed_eq, h.filter_eq]

theorem isRun (h : Spaced s o) (hs : IsRun s) : IsRun o := by
  intro c hc
  cases hblank : c.isBlank with
  | true => exact not_isDelimiter_of_isBlank hblank
  | false =>
    have hmem : c ∈ s.filter (!·.isBlank) := by
      rw [h.filter_eq]
      exact List.mem_filter.mpr ⟨hc, by simp [hblank]⟩
    exact hs c (List.mem_filter.mp hmem).1

/-! ## Compact forms -/

theorem squeezeFrom_eq (h : Spaced s o) (after : Bool) :
    squeezeFrom after false s = squeezeFrom after false o := by
  induction h generalizing after with
  | blank hgap =>
    have hnil : ∀ {gap : Text}, Text.isBlank gap = true → squeezeFrom after false gap = [] := by
      intro gap hgap
      have := squeezeFrom_gap hgap after []
      rwa [List.append_nil] at this
    rw [hnil hgap.blank, hnil hgap.blank']
  | char hgap hc hs ih =>
    rw [squeezeFrom_gap hgap.blank, squeezeFrom_gap hgap.blank', hgap.isEmpty_eq]
    simp only [squeezeFrom, hc, hs.closes_eq, ih, Bool.false_eq_true, if_false]
  | ended hgap hgap' hs ih =>
    rw [squeezeFrom_gap hgap, squeezeFrom_gap hgap']
    simp only [squeezeFrom, semicolon_not_isBlank, hs.closes_eq, ih]
    simp [isTight]

theorem compact_eq (h : Spaced s o) : compact s = compact o := by
  rw [compact_eq_squeezeFrom, compact_eq_squeezeFrom, h.squeezeFrom_eq]

end Spaced

end TextTidy.Css
