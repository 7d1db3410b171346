import TextTidy.Proofs.Css.Lacking
import TextTidy.Proofs.Css.Spaced

/-!
# Where a value is ended

The semicolon pass ends a value behind the longest part of it that is open. A value has one
character at least, and a blank is one: so a value may be ended between the blanks in front of what
was meant to be the value, and how many blanks there are makes a difference. Once a value has begun
their number makes none.
-/

namespace TextTidy.Css

/-! ## The end of a value -/

/-- The text with a semicolon behind the longest open value at its start, if there is one. -/
def endValue (s : Text) : Text :=
  match openValue? s with
  | some n => s.take n ++ .char ';' :: s.drop n
  | none => s

/-- Whether a value that has begun is open somewhere in the text or right at its start. -/
def begunOpen (s : Text) : Bool := (openValue? s).isSome || endsDeclaration s

/-- The text with a semicolon where the longest value ends that has begun before it. -/
def endBegun (s : Text) : Text :=
  if (openValue? s).isSome then endValue s
  else if endsDeclaration s then .char ';' :: s
  else s

theorem endValue_of_none {s : Text} (h : (openValue? s).isSome = false) : endValue s = s := by
  have hnone : openValue? s = none := by simpa using h
  rw [endValue, hnone]

theorem endBegun_of_not_open {s : Text} (h : begunOpen s = false) : endBegun s = s := by
  rw [begunOpen, Bool.or_eq_false_iff] at h
  rw [endBegun, h.1, h.2]
  rfl

/-- The first character of a value is never behind its end. -/
theorem endValue_cons {c : CodePoint} (hc : isDelimiter c = false) (s : Text) :
    endValue (c :: s) = c :: endBegun s := by
  rw [endValue, openValue?, hc, if_neg Bool.false_ne_true, endBegun, endValue]
  cases openValue? s with
  | some n => rfl
  | none => cases endsDeclaration s <;> rfl

theorem endValue_delimiter {d : CodePoint} (hd : isDelimiter d = true) (s : Text) :
    endValue (d :: s) = d :: s := by
  rw [endValue, openValue?, hd, if_pos rfl]

theorem openValue?_delimiter {d : CodePoint} (hd : isDelimiter d = true) (s : Text) :
    openValue? (d :: s) = none := by
  rw [openValue?, hd, if_pos rfl]

theorem openValue?_isSome_cons {c : CodePoint} (hc : isDelimiter c = false) (s : Text) :
    (openValue? (c :: s)).isSome = begunOpen s := by
  rw [openValue?_cons_isSome, hc, begunOpen]
  rfl

/-- The longest open value is found however its end is given. -/
theorem openValue?_of_longest {value rest : Text} (hne : value ≠ []) (hrun : IsRun value)
    (hends : endsDeclaration rest = true) (hnone : openValue? rest = none) :
    openValue? (value ++ rest) = some value.length := by
  induction value with
  | nil => exact absurd rfl hne
  | cons c value ih =>
    obtain ⟨hc, hrun⟩ := isRun_cons.mp hrun
    rw [List.cons_append, openValue?, hc, if_neg Bool.false_ne_true]
    cases value with
    | nil => rw [List.nil_append, hnone, hends]; rfl
    | cons x value => rw [ih (List.cons_ne_nil x value) hrun]; rfl

theorem endValue_of_longest {value rest : Text} (hne : value ≠ []) (hrun : IsRun value)
    (hends : endsDeclaration rest = true) (hnone : openValue? rest = none) :
    endValue (value ++ rest) = value ++ .char ';' :: rest := by
  rw [endValue, openValue?_of_longest hne hrun hends hnone]
  simp only [List.take_left, List.drop_left]

/-! ## Values that have begun, from gap to gap -/

section Gap

variable {gap s : Text} {c : CodePoint}

theorem endsDeclaration_gap (hgap : Text.isBlank gap = true) (hc : c.isBlank = false) (s : Text) :
    endsDeclaration (gap ++ c :: s) =
      ((!gap.isEmpty && propertyFollows (c :: s)) || c == .char '}') := by
  rw [endsDeclaration_eq, nextProperty_gap hgap hc, closes, Text.trimStart_gap hgap hc]
  rfl

theorem begunOpen_char (hc : c.isBlank = false) (hd : isDelimiter c = false) (s : Text) :
    begunOpen (c :: s) = begunOpen s := by
  have hbrace := not_closing_of_not_isDelimiter hd
  have hends := endsDeclaration_gap Text.isBlank_nil hc s
  rw [List.nil_append] at hends
  rw [begunOpen, openValue?_isSome_cons hd, hends, hbrace]
  simp

theorem begunOpen_blank {b : CodePoint} (hb : b.isBlank = true) (s : Text) :
    begunOpen (b :: s) = (begunOpen s || endsDeclaration (b :: s)) := by
  rw [begunOpen, openValue?_isSome_cons (not_isDelimiter_of_isBlank hb)]

/-- At a delimiter a value is open if the delimiter is a closing brace. -/
theorem begunOpen_gap_delimiter (hgap : Text.isBlank gap = true) (hd : isDelimiter c = true)
    (s : Text) : begunOpen (gap ++ c :: s) = (c == .char '}') := by
  have hc := not_isBlank_of_isDelimiter hd
  have hproperty := propertyFollows_of_not_isNameChar (not_isNameChar_of_isDelimiter hd) s
  induction gap with
  | nil =>
    have hends := endsDeclaration_gap Text.isBlank_nil hc s
    rw [List.nil_append] at hends
    rw [List.nil_append, begunOpen, openValue?_delimiter hd, hends]
    rfl
  | cons b gap ih =>
    have hends := endsDeclaration_gap hgap hc s
    obtain ⟨hb, hgap⟩ := Text.isBlank_cons.mp hgap
    rw [List.cons_append] at hends ⊢
    rw [begunOpen_blank hb, ih hgap, hends, hproperty, Bool.and_false, Bool.false_or, Bool.or_self]

/-- Behind a gap a value is also open before another property. -/
theorem begunOpen_gap (hgap : Text.isBlank gap = true) (hc : c.isBlank = false)
    (hd : isDelimiter c = false) (s : Text) :
    begunOpen (gap ++ c :: s) = (begunOpen s || (!gap.isEmpty && propertyFollows (c :: s))) := by
  have hbrace := not_closing_of_not_isDelimiter hd
  induction gap with
  | nil => rw [List.nil_append, begunOpen_char hc hd]; simp
  | cons b gap ih =>
    have hends := endsDeclaration_gap hgap hc s
    obtain ⟨hb, hgap⟩ := Text.isBlank_cons.mp hgap
    rw [List.cons_append] at hends ⊢
    rw [begunOpen_blank hb, ih hgap, hends, hbrace]
    cases begunOpen s <;> cases propertyFollows (c :: s) <;> simp

theorem begunOpen_of_isBlank (hgap : Text.isBlank gap = true) : begunOpen gap = false := by
  induction gap with
  | nil => rfl
  | cons b gap ih =>
    have hends : endsDeclaration (b :: gap) = false := by
      rw [endsDeclaration_eq, nextProperty_of_isBlank hgap, closes, Text.trimStart_of_isBlank hgap]
      rfl
    rw [begunOpen_blank (Text.isBlank_cons.mp hgap).1, ih (Text.isBlank_cons.mp hgap).2, hends]
    rfl

/-- The end of a value that is open behind a character stays where it is. -/
theorem endBegun_cons_of_open (hd : isDelimiter c = false) (h : begunOpen s = true) :
    endBegun (c :: s) = c :: endBegun s := by
  rw [endBegun, openValue?_isSome_cons hd, h, if_pos rfl, endValue_cons hd]

theorem endBegun_char (hc : c.isBlank = false) (hd : isDelimiter c = false) (s : Text) :
    endBegun (c :: s) = c :: endBegun s := by
  cases h : begunOpen s with
  | true => exact endBegun_cons_of_open hd h
  | false =>
    rw [endBegun_of_not_open h, endBegun_of_not_open]
    rw [begunOpen_char hc hd, h]

theorem endBegun_gap_of_open (hgap : Text.isBlank gap = true) (hc : c.isBlank = false)
    (hd : isDelimiter c = false) (h : begunOpen s = true) :
    endBegun (gap ++ c :: s) = gap ++ c :: endBegun s := by
  induction gap with
  | nil => exact endBegun_char hc hd s
  | cons b gap ih =>
    obtain ⟨hb, hgap⟩ := Text.isBlank_cons.mp hgap
    have hopen : begunOpen (gap ++ c :: s) = true := by
      rw [begunOpen_gap hgap hc hd, h, Bool.true_or]
    rw [List.cons_append, endBegun_cons_of_open (not_isDelimiter_of_isBlank hb) hopen, ih hgap]
    rfl

/-- Before another property a value keeps all blanks of the gap but the last. -/
theorem endBegun_gap_of_property {b : CodePoint} (hgap : Text.isBlank gap = true)
    (hb : b.isBlank = true) (hproperty : propertyFollows (c :: s) = true)
    (hopen : begunOpen s = false) :
    endBegun (gap ++ b :: c :: s) = gap ++ .char ';' :: b :: c :: s := by
  have hname : isNameChar c = true := (Bool.and_eq_true_iff.mp hproperty).1
  have hc := not_isBlank_of_isNameChar hname
  have hd := not_isDelimiter_of_isNameChar hname
  induction gap with
  | nil =>
    have hnot : (openValue? (b :: c :: s)).isSome = false := by
      rw [openValue?_isSome_cons (not_isDelimiter_of_isBlank hb), begunOpen_char hc hd, hopen]
    have hgap : Text.isBlank [b] = true := Text.isBlank_cons.mpr ⟨hb, rfl⟩
    have hends := endsDeclaration_gap hgap hc s
    rw [hproperty] at hends
    rw [List.nil_append, endBegun, hnot, if_neg Bool.false_ne_true]
    exact if_pos hends
  | cons x gap ih =>
    obtain ⟨hx, hgap⟩ := Text.isBlank_cons.mp hgap
    have hlonger : Text.isBlank (gap ++ [b]) = true :=
      Text.isBlank_append.mpr ⟨hgap, Text.isBlank_cons.mpr ⟨hb, rfl⟩⟩
    have hmore := begunOpen_gap hlonger hc hd s
    rw [hproperty, List.append_assoc] at hmore
    have hbegun : begunOpen (gap ++ b :: c :: s) = true := by
      refine hmore.trans ?_
      simp
    rw [List.cons_append, endBegun_cons_of_open (not_isDelimiter_of_isBlank hx) hbegun, ih hgap]
    rfl

theorem endBegun_gap_delimiter (hgap : Text.isBlank gap = true) (hd : isDelimiter c = true)
    (s : Text) :
    endBegun (gap ++ c :: s) =
      gap ++ if c == .char '}' then .char ';' :: c :: s else c :: s := by
  cases hbrace : c == .char '}' with
  | false => exact endBegun_of_not_open (by rw [begunOpen_gap_delimiter hgap hd, hbrace])
  | true =>
    obtain rfl := eq_of_beq hbrace
    induction gap with
    | nil =>
      rw [List.nil_append, endBegun, openValue?_delimiter hd, endsDeclaration_eq, closes_cons,
        Bool.or_true]
      rfl
    | cons b gap ih =>
      obtain ⟨hb, hgap⟩ := Text.isBlank_cons.mp hgap
      have hopen := begunOpen_gap_delimiter hgap hd s
      rw [List.cons_append, endBegun_cons_of_open (not_isDelimiter_of_isBlank hb) hopen, ih hgap]
      rfl

end Gap

/-- Once a value has begun the lengths of gaps make no difference to where it is open. -/
theorem begunOpen_spaced {s o : Text} (h : Spaced s o) : begunOpen s = begunOpen o := by
  have hsemi : isDelimiter (.char ';') = true := by decide
  induction h with
  | blank hgap => rw [begunOpen_of_isBlank hgap.blank, begunOpen_of_isBlank hgap.blank']
  | @char gap gap' s o c hgap hc hs ih =>
    cases hd : isDelimiter c with
    | true => rw [begunOpen_gap_delimiter hgap.blank hd, begunOpen_gap_delimiter hgap.blank' hd]
    | false =>
      rw [begunOpen_gap hgap.blank hc hd, begunOpen_gap hgap.blank' hc hd, ih, hgap.isEmpty_eq,
        hs.propertyFollows_cons_eq]
  | ended hgap hgap' _ _ =>
    rw [begunOpen_gap_delimiter hgap hsemi, begunOpen_gap_delimiter hgap' hsemi]

/-- A value that has begun is ended alike in texts that are spaced alike. -/
theorem endBegun_spaced {s o : Text} (h : Spaced s o) : Spaced (endBegun s) (endBegun o) := by
  have hsemi : isDelimiter (.char ';') = true := by decide
  induction h with
  | blank hgap =>
    rw [endBegun_of_not_open (begunOpen_of_isBlank hgap.blank),
      endBegun_of_not_open (begunOpen_of_isBlank hgap.blank')]
    exact .blank hgap
  | ended hgap hgap' hs _ =>
    rw [endBegun_gap_delimiter hgap hsemi, endBegun_gap_delimiter hgap' hsemi]
    exact .ended hgap hgap' hs
  | @char gap gap' s o c hgap hc hs ih =>
    have hblank := hgap.blank
    have hblank' := hgap.blank'
    cases hd : isDelimiter c with
    | true =>
      rw [endBegun_gap_delimiter hblank hd, endBegun_gap_delimiter hblank' hd]
      split
      · exact .ended hblank hblank' (.cons hc hs)
      · exact .char hgap hc hs
    | false =>
      have hopen := begunOpen_spaced hs
      have hproperty := hs.propertyFollows_cons_eq c
      cases hbegun : begunOpen s with
      | true =>
        rw [endBegun_gap_of_open hblank hc hd hbegun,
          endBegun_gap_of_open hblank' hc hd (hopen ▸ hbegun)]
        exact .char hgap hc ih
      | false =>
        rw [hbegun] at hopen
        by_cases hnext : gap ≠ [] ∧ propertyFollows (c :: s) = true
        · -- the semicolon comes before the last blank of either gap
          obtain ⟨hne, hnext⟩ := hnext
          obtain ⟨front, b, rfl, hfront, hb⟩ := Text.exists_last_blank hblank hne
          obtain ⟨front', b', rfl, hfront', hb'⟩ :=
            Text.exists_last_blank hblank' (mt hgap.nil_iff.mpr hne)
          rw [List.append_assoc, List.append_assoc, List.singleton_append, List.singleton_append,
            endBegun_gap_of_property hfront hb hnext hbegun,
            endBegun_gap_of_property hfront' hb' (hproperty ▸ hnext) hopen.symm]
          have hlast : SameGap [b] [b'] :=
            ⟨Text.isBlank_cons.mpr ⟨hb, rfl⟩, Text.isBlank_cons.mpr ⟨hb', rfl⟩, by simp⟩
          have hbehind : Spaced ([b] ++ c :: s) ([b'] ++ c :: o) := .char hlast hc hs
          exact .ended hfront hfront' hbehind
        · have hnone : begunOpen (gap ++ c :: s) = false := by
            rw [begunOpen_gap hblank hc hd, hbegun, Bool.false_or, Bool.and_eq_false_iff]
            by_cases hne : gap = []
            · exact Or.inl (by rw [hne]; rfl)
            · exact Or.inr (Bool.eq_false_iff.mpr fun hnext' => hnext ⟨hne, hnext'⟩)
          rw [endBegun_of_not_open hnone, endBegun_of_not_open]
          · exact .char hgap hc hs
          · rw [← begunOpen_spaced (.char hgap hc hs), hnone]

/-! ## Blank values -/

/-- Whether a value is nothing but the first of several blanks, for another property comes next. -/
def blankValue : Text → Bool
  | [] => false
  | b :: rest => b.isBlank && nextProperty rest

theorem blankValue_isSome {value : Text} (h : blankValue value = true) (rest : Text) :
    (openValue? (value ++ rest)).isSome = true := by
  cases value with
  | nil => cases h
  | cons b value =>
    obtain ⟨hb, hnext⟩ := Bool.and_eq_true_iff.mp h
    have hends : endsDeclaration (value ++ rest) = true := by
      rw [endsDeclaration_eq, nextProperty_append hnext, Bool.true_or]
    rw [List.cons_append, openValue?_isSome_cons (not_isDelimiter_of_isBlank hb), begunOpen, hends,
      Bool.or_true]

theorem blankValue_append {value : Text} (h : blankValue value = true) (rest : Text) :
    blankValue (value ++ rest) = true := by
  cases value with
  | nil => cases h
  | cons b value =>
    obtain ⟨hb, hnext⟩ := Bool.and_eq_true_iff.mp h
    exact Bool.and_eq_true_iff.mpr ⟨hb, nextProperty_append hnext rest⟩

theorem blankValue_append_delimiter {d : CodePoint} (hd : isDelimiter d = true)
    (value rest : Text) : blankValue (value ++ d :: rest) = blankValue value := by
  cases value with
  | nil => simp [blankValue, not_isBlank_of_isDelimiter hd]
  | cons b value => rw [List.cons_append, blankValue, nextProperty_append_delimiter hd, blankValue]

section Gap

variable {gap s : Text} {c : CodePoint}

/-- A value that is not blank is ended behind its first character that is no blank. -/
theorem endValue_gap (hgap : Text.isBlank gap = true) (hc : c.isBlank = false)
    (hd : isDelimiter c = false) (h : blankValue (gap ++ c :: s) = false) :
    endValue (gap ++ c :: s) = gap ++ c :: endBegun s := by
  cases gap with
  | nil => exact endValue_cons hd s
  | cons b gap =>
    obtain ⟨hb, hgap⟩ := Text.isBlank_cons.mp hgap
    rw [List.cons_append, endValue_cons (not_isDelimiter_of_isBlank hb)]
    refine congrArg (b :: ·) ?_
    cases hbegun : begunOpen s with
    | true => exact endBegun_gap_of_open hgap hc hd hbegun
    | false =>
      rw [List.cons_append, blankValue, hb, Bool.true_and, nextProperty_gap hgap hc] at h
      rw [endBegun_of_not_open hbegun, endBegun_of_not_open]
      · rfl
      · rw [begunOpen_gap hgap hc hd, hbegun, h]
        rfl

/-- A blank value before a delimiter is ended if the delimiter is a closing brace. -/
theorem endValue_gap_delimiter (hgap : Text.isBlank gap = true) (hd : isDelimiter c = true)
    (s : Text) :
    endValue (gap ++ c :: s) =
      gap ++ if !gap.isEmpty && c == .char '}' then .char ';' :: c :: s else c :: s := by
  cases gap with
  | nil => exact endValue_delimiter hd s
  | cons b gap =>
    obtain ⟨hb, hgap⟩ := Text.isBlank_cons.mp hgap
    rw [List.cons_append, endValue_cons (not_isDelimiter_of_isBlank hb),
      endBegun_gap_delimiter hgap hd]
    rfl

theorem endValue_of_isBlank (hgap : Text.isBlank gap = true) : endValue gap = gap := by
  cases gap with
  | nil => rfl
  | cons b gap =>
    obtain ⟨hb, hgap⟩ := Text.isBlank_cons.mp hgap
    rw [endValue_cons (not_isDelimiter_of_isBlank hb),
      endBegun_of_not_open (begunOpen_of_isBlank hgap)]

end Gap

/-- A blank value has two blanks at least, and a property behind them. -/
theorem exists_of_blankValue {gap s : Text} {c : CodePoint} (hgap : Text.isBlank gap = true)
    (hc : c.isBlank = false) (h : blankValue (gap ++ c :: s) = true) :
    ∃ b between b', gap = b :: (between ++ [b']) ∧ b.isBlank = true ∧
      Text.isBlank between = true ∧ b'.isBlank = true ∧ propertyFollows (c :: s) = true := by
  cases gap with
  | nil =>
    rw [List.nil_append, blankValue, hc] at h
    cases h
  | cons b gap =>
    obtain ⟨hb, hgap⟩ := Text.isBlank_cons.mp hgap
    rw [List.cons_append, blankValue, hb, Bool.true_and, nextProperty_gap hgap hc,
      Bool.and_eq_true] at h
    have hne : gap ≠ [] := by
      rintro rfl
      cases h.1
    obtain ⟨between, b', rfl, hbetween, hb'⟩ := Text.exists_last_blank hgap hne
    exact ⟨b, between, b', rfl, hb, hbetween, hb', h.2⟩

theorem Spaced.exists_of_blankValue {value value' : Text} (h : Spaced value value')
    (hblank : blankValue value = true) :
    ∃ gap gap' c s o, value = gap ++ c :: s ∧ value' = gap' ++ c :: o ∧
      Text.isBlank gap = true ∧ Text.isBlank gap' = true ∧ c.isBlank = false ∧ Spaced s o := by
  cases h with
  | blank hgap =>
    have hne : ∀ {gap : Text}, Text.isBlank gap = true → blankValue gap = false := by
      intro gap hgap
      cases gap with
      | nil => rfl
      | cons b gap =>
        rw [blankValue, nextProperty_of_isBlank (Text.isBlank_cons.mp hgap).2, Bool.and_false]
    rw [hne hgap.blank] at hblank
    cases hblank
  | char hgap hc hrest => exact ⟨_, _, _, _, _, rfl, rfl, hgap.blank, hgap.blank', hc, hrest⟩
  | ended hgap hgap' hrest =>
    exact ⟨_, _, _, _, _, rfl, rfl, hgap, hgap', semicolon_not_isBlank, hrest⟩

/-- Values that are spaced alike are ended alike if both are blank or neither is. -/
theorem endValue_spaced {s o : Text} (h : Spaced s o) (hblank : blankValue s = blankValue o) :
    Spaced (endValue s) (endValue o) := by
  have hsemi : isDelimiter (.char ';') = true := by decide
  cases h with
  | blank hgap =>
    rw [endValue_of_isBlank hgap.blank, endValue_of_isBlank hgap.blank']
    exact .blank hgap
  | ended hgap hgap' hrest =>
    rw [endValue_gap_delimiter hgap hsemi, endValue_gap_delimiter hgap' hsemi]
    simpa using Spaced.ended hgap hgap' hrest
  | @char gap gap' s o c hgap hc hrest =>
    cases hd : isDelimiter c with
    | true =>
      rw [endValue_gap_delimiter hgap.blank hd, endValue_gap_delimiter hgap.blank' hd,
        hgap.isEmpty_eq]
      split
      · exact .ended hgap.blank hgap.blank' (.cons hc hrest)
      · exact .char hgap hc hrest
    | false =>
      cases hs : blankValue (gap ++ c :: s) with
      | false =>
        rw [endValue_gap hgap.blank hc hd hs,
          endValue_gap hgap.blank' hc hd (hblank.symm.trans hs)]
        exact .char hgap hc (endBegun_spaced hrest)
      | true =>
        -- behind the first blank a value has begun before both gaps
        obtain ⟨b, between, x, rfl, hb, hbetween, hx, -⟩ := exists_of_blankValue hgap.blank hc hs
        obtain ⟨b', between', x', rfl, hb', hbetween', hx', -⟩ :=
          exists_of_blankValue hgap.blank' hc (hblank.symm.trans hs)
        have hmore : SameGap (between ++ [x]) (between' ++ [x']) :=
          ⟨Text.isBlank_append.mpr ⟨hbetween, Text.isBlank_cons.mpr ⟨hx, rfl⟩⟩,
            Text.isBlank_append.mpr ⟨hbetween', Text.isBlank_cons.mpr ⟨hx', rfl⟩⟩, by simp⟩
        rw [List.cons_append, List.cons_append, endValue_cons (not_isDelimiter_of_isBlank hb),
          endValue_cons (not_isDelimiter_of_isBlank hb')]
        have hfirst : SameGap [b] [b'] :=
          ⟨Text.isBlank_cons.mpr ⟨hb, rfl⟩, Text.isBlank_cons.mpr ⟨hb', rfl⟩, by simp⟩
        exact (Spaced.blank hfirst).append (endBegun_spaced (.char hmore hc hrest))

/-! ## Blank values that have been ended -/

/-- No value that has begun ends in a name before a colon. -/
theorem endBegun_property {name gap : Text} (hchars : ∀ c ∈ name, isNameChar c = true)
    (hgap : Text.isBlank gap = true) (rest : Text) :
    endBegun (name ++ (gap ++ .char ':' :: rest)) =
      name ++ (gap ++ .char ':' :: endBegun rest) := by
  have hc : (CodePoint.char ':').isBlank = false := by decide
  have hd : isDelimiter (.char ':') = false := by decide
  induction name with
  | nil =>
    cases hopen : begunOpen rest with
    | true => exact endBegun_gap_of_open hgap hc hd hopen
    | false =>
      rw [endBegun_of_not_open hopen]
      refine endBegun_of_not_open ?_
      rw [List.nil_append, begunOpen_gap hgap hc hd, hopen,
        propertyFollows_of_not_isNameChar (by decide), Bool.and_false]
      rfl
  | cons c name ih =>
    rw [List.forall_mem_cons] at hchars
    rw [List.cons_append, endBegun_char (not_isBlank_of_isNameChar hchars.1)
      (not_isDelimiter_of_isNameChar hchars.1), ih hchars.2]
    rfl

theorem propertyFollows_endBegun {c : CodePoint} {s : Text}
    (h : propertyFollows (c :: s) = true) : propertyFollows (c :: endBegun s) = true := by
  obtain ⟨name, gap, rest, hs, hne, hchars, hgap⟩ := propertyFollows_iff.mp h
  cases name with
  | nil => exact absurd rfl hne
  | cons x name =>
    obtain ⟨rfl, hrest⟩ : c = x ∧ s = name ++ (gap ++ .char ':' :: rest) := List.cons.inj hs
    rw [hrest, endBegun_property (List.forall_mem_cons.mp hchars).2 hgap]
    exact propertyFollows_iff.mpr ⟨c :: name, gap, endBegun rest, rfl, hne, hchars, hgap⟩

/-- A blank value stays blank if the pass ends it further on, and otherwise it is cut between its
blanks. -/
theorem endValue_of_blankValue {gap s : Text} {c : CodePoint} (hgap : Text.isBlank gap = true)
    (hc : c.isBlank = false) (h : blankValue (gap ++ c :: s) = true) :
    (begunOpen s = true ∧ endValue (gap ++ c :: s) = gap ++ c :: endBegun s ∧
      blankValue (gap ++ c :: endBegun s) = true) ∨
    (begunOpen s = false ∧ ∃ before b, gap = before ++ [b] ∧
      endValue (gap ++ c :: s) = before ++ .char ';' :: b :: c :: s ∧
      blankValue (before ++ .char ';' :: b :: c :: s) = false) := by
  obtain ⟨b, between, b', rfl, hb, hbetween, hb', hproperty⟩ := exists_of_blankValue hgap hc h
  have hd := not_isDelimiter_of_isNameChar (Bool.and_eq_true_iff.mp hproperty).1
  have hfirst := not_isDelimiter_of_isBlank hb
  have hmore := (Text.isBlank_cons.mp hgap).2
  cases hopen : begunOpen s with
  | true =>
    refine Or.inl ⟨rfl, ?_, ?_⟩
    · rw [List.cons_append, endValue_cons hfirst, endBegun_gap_of_open hmore hc hd hopen]
      rfl
    · rw [List.cons_append, blankValue, hb, nextProperty_gap hmore hc,
        propertyFollows_endBegun hproperty]
      simp
  | false =>
    refine Or.inr ⟨rfl, b :: between, b', rfl, ?_, ?_⟩
    · have hassoc : between ++ [b'] ++ c :: s = between ++ b' :: c :: s := by simp
      rw [List.cons_append, endValue_cons hfirst, hassoc,
        endBegun_gap_of_property hbetween hb' hproperty hopen]
      rfl
    · rw [List.cons_append, blankValue, nextProperty_gap hbetween semicolon_not_isBlank,
        propertyFollows_of_not_isNameChar (by decide), Bool.and_false, Bool.and_false]

end TextTidy.Css
