import TextTidy.Proofs.Css.Squeeze

/-!
# What the compact form is

Idle semicolons aside, the compact form has the characters of the text in their order. Whether a
space stands between two of them depends on the two, on whether there was a gap between them, and on
whether an important mark begins with the second. No other text is like that.
-/

namespace TextTidy.Css

/-- The text without its idle semicolons, behind which nothing but blanks comes before a closing
brace. -/
def withoutIdle : Text → Text
  | [] => []
  | c :: s => if c == .char ';' && closes s then withoutIdle s else c :: withoutIdle s

/-- The characters of a text, without the blanks. -/
def inks (s : Text) : Text := s.filter (!·.isBlank)

/-- What is to stand between `x` and `y` where `gap` stands between them and `behind` behind `y`. -/
def keptGap (x : CodePoint) (gap : Text) (y : CodePoint) (behind : Text) : Text :=
  if gap ≠ [] ∧ isTight x = false ∧ isTight y = false ∧
      Text.startsWith (y :: behind) importantMark = false then [.char ' ']
  else []

/-- The second text is the first with the gaps between its characters as they are to be, and without
blanks at its ends. -/
structure CloselySet (s o : Text) : Prop where
  /-- The characters stay, in their order. -/
  inks : inks o = inks s
  /-- Between two characters that follow each other stands what is to stand there. -/
  between : ∀ front x gap y behind, s = front ++ x :: (gap ++ y :: behind) →
    x.isBlank = false → Text.isBlank gap = true → y.isBlank = false →
    ∃ front' behind', o = front' ++ x :: (keptGap x gap y behind ++ y :: behind') ∧
      Css.inks front' = Css.inks front ∧ Css.inks behind' = Css.inks behind
  /-- No blank comes first. -/
  first : ∀ c, o.head? = some c → c.isBlank = false
  /-- No blank comes last. -/
  last : ∀ c, o.getLast? = some c → c.isBlank = false

/-! ## Characters without blanks -/

section

variable {s t gap : Text} {c x : CodePoint}

theorem inks_append (s t : Text) : inks (s ++ t) = inks s ++ inks t := List.filter_append ..

theorem inks_cons (hc : c.isBlank = false) (s : Text) : inks (c :: s) = c :: inks s :=
  List.filter_cons_of_pos (by simp [hc])

theorem inks_eq_nil_iff : inks s = [] ↔ Text.isBlank s = true := by
  simp [inks, List.filter_eq_nil_iff, Text.isBlank_iff]

theorem inks_gap (hgap : Text.isBlank gap = true) (s : Text) : inks (gap ++ s) = inks s := by
  rw [inks_append, inks_eq_nil_iff.mpr hgap, List.nil_append]

theorem isBlank_keptGap (x : CodePoint) (gap : Text) (y : CodePoint) (behind : Text) :
    Text.isBlank (keptGap x gap y behind) = true := by
  unfold keptGap
  split
  · decide
  · rfl

/-- A character of a text is found again by the characters before it. -/
theorem split_unique {p r f t : Text} (hx : x.isBlank = false) (h : p ++ x :: r = f ++ x :: t)
    (hinks : inks p = inks f) : p = f ∧ r = t := by
  induction p generalizing f with
  | nil =>
    cases f with
    | nil => exact ⟨rfl, (List.cons.inj h).2⟩
    | cons c f =>
      obtain ⟨rfl, -⟩ := List.cons.inj h
      rw [inks_cons hx] at hinks
      cases hinks
  | cons c p ih =>
    cases f with
    | nil =>
      obtain ⟨rfl, -⟩ := List.cons.inj h
      rw [inks_cons hx] at hinks
      cases hinks
    | cons d f =>
      obtain ⟨rfl, hrest⟩ := List.cons.inj h
      have hrestInks : inks p = inks f := by
        cases hc : c.isBlank with
        | true =>
          have hblank : Text.isBlank [c] = true := Text.isBlank_cons.mpr ⟨hc, rfl⟩
          rwa [← List.singleton_append, inks_gap hblank, ← List.singleton_append (l := f),
            inks_gap hblank] at hinks
        | false =>
          rw [inks_cons hc, inks_cons hc] at hinks
          exact (List.cons.inj hinks).2
      obtain ⟨rfl, hrt⟩ := ih hrest hrestInks
      exact ⟨rfl, hrt⟩

end

/-! ## At most one text is set closely -/

namespace CloselySet

variable {s o o' : Text}

/-- Texts that agree up to a character agree behind it. -/
theorem behind_unique (h : CloselySet s o) (h' : CloselySet s o') {rest front p r r' : Text}
    {x : CodePoint} (hx : x.isBlank = false) (hs : s = front ++ x :: rest) (ho : o = p ++ x :: r)
    (ho' : o' = p ++ x :: r') (hp : Css.inks p = Css.inks front) : r = r' := by
  induction rest using Text.gap_induction generalizing front p x r r' with
  | blank gap hgap =>
    -- nothing follows in either text, as its last character would be a blank
    have hend : ∀ {o r : Text}, CloselySet s o → o = p ++ x :: r → r = [] := by
      intro o r h ho
      have hinks := h.inks
      rw [ho, hs, inks_append, inks_append, hp, inks_cons hx, inks_cons hx,
        inks_eq_nil_iff.mpr hgap] at hinks
      have hblank : Text.isBlank r = true :=
        inks_eq_nil_iff.mp (List.cons.inj (List.append_cancel_left hinks)).2
      by_contra hne
      obtain ⟨init, b, rfl, -, hb⟩ := Text.exists_last_blank hblank hne
      have hlast := h.last b
        (by rw [ho, ← List.cons_append, ← List.append_assoc, List.getLast?_concat])
      rw [hb] at hlast
      cases hlast
    rw [hend h ho, hend h' ho']
  | char gap y behind hgap hy ih =>
    obtain ⟨f, b, hf, hfront, -⟩ := h.between front x gap y behind hs hx hgap hy
    obtain ⟨f', b', hf', hfront', -⟩ := h'.between front x gap y behind hs hx hgap hy
    obtain ⟨rfl, rfl⟩ := split_unique hx (ho.symm.trans hf) (hp.trans hfront.symm)
    obtain ⟨rfl, rfl⟩ := split_unique hx (ho'.symm.trans hf') (hp.trans hfront'.symm)
    have hsNext : s = front ++ x :: gap ++ y :: behind := by
      rw [hs, List.append_assoc, List.cons_append]
    have hoNext : o = p ++ x :: keptGap x gap y behind ++ y :: b := by
      rw [ho, List.append_assoc, List.cons_append]
    have hoNext' : o' = p ++ x :: keptGap x gap y behind ++ y :: b' := by
      rw [ho', List.append_assoc, List.cons_append]
    have hinks : Css.inks (p ++ x :: keptGap x gap y behind) = Css.inks (front ++ x :: gap) := by
      rw [inks_append, inks_append, hp, inks_cons hx, inks_cons hx,
        inks_eq_nil_iff.mpr (isBlank_keptGap x gap y behind), inks_eq_nil_iff.mpr hgap]
    rw [ih hy hsNext hoNext hoNext' hinks]

theorem unique (h : CloselySet s o) (h' : CloselySet s o') : o = o' := by
  rcases Text.exists_span CodePoint.isBlank s with hblank | ⟨gap, x, rest, hs, hgap, hx⟩
  · have hnil : ∀ {o : Text}, CloselySet s o → o = [] := by
      intro o h
      have hoblank : Text.isBlank o = true := by
        rw [← inks_eq_nil_iff, h.inks, inks_eq_nil_iff]
        exact Text.isBlank_iff.mpr hblank
      cases o with
      | nil => rfl
      | cons c o =>
        have hfirst := h.first c rfl
        rw [(Text.isBlank_cons.mp hoblank).1] at hfirst
        cases hfirst
    rw [hnil h, hnil h']
  · have hgap := Text.isBlank_iff.mpr hgap
    have hstart : ∀ {o : Text}, CloselySet s o → ∃ r, o = x :: r := by
      intro o h
      have hinks := h.inks
      rw [hs, inks_gap hgap, inks_cons hx] at hinks
      cases o with
      | nil => cases hinks
      | cons c o =>
        rw [inks_cons (h.first c rfl)] at hinks
        exact ⟨o, by rw [(List.cons.inj hinks).1]⟩
    obtain ⟨r, hr⟩ := hstart h
    obtain ⟨r', hr'⟩ := hstart h'
    have hinks : Css.inks [] = Css.inks gap := (inks_eq_nil_iff.mpr hgap).symm
    have ho : o = [] ++ x :: r := hr
    have ho' : o' = [] ++ x :: r' := hr'
    rw [hr, hr', behind_unique h h' hx hs ho ho' hinks]

end CloselySet

/-! ## One pass over a text without idle semicolons -/

/-- The text with its gaps as they are to be, made in one pass, when the last character was a tight
mark or there was none (`after`), and a gap may have been passed since (`gap`). -/
def setFrom : (after gap : Bool) → Text → Text
  | _, _, [] => []
  | after, gap, c :: rest =>
    if c.isBlank then setFrom after true rest
    else
      let next := c :: setFrom (isTight c) false rest
      if gap && !after && !isTight c && !Text.startsWith next importantMark then
        .char ' ' :: next
      else next

theorem setFrom_blank {b : CodePoint} (hb : b.isBlank = true) (after gap : Bool) (s : Text) :
    setFrom after gap (b :: s) = setFrom after true s := by
  rw [setFrom, if_pos hb]

theorem setFrom_char {c : CodePoint} (hc : c.isBlank = false) (after gap : Bool) (s : Text) :
    setFrom after gap (c :: s) =
      if gap && !after && !isTight c &&
          !Text.startsWith (c :: setFrom (isTight c) false s) importantMark then
        .char ' ' :: c :: setFrom (isTight c) false s
      else c :: setFrom (isTight c) false s := by
  rw [setFrom, hc]
  rfl

theorem setFrom_gap {gap : Text} (hgap : Text.isBlank gap = true) (after passed : Bool) (s : Text) :
    setFrom after passed (gap ++ s) = setFrom after (passed || !gap.isEmpty) s := by
  induction gap generalizing passed with
  | nil => rw [List.nil_append, List.isEmpty_nil, Bool.not_true, Bool.or_false]
  | cons b gap ih =>
    obtain ⟨hb, hgap⟩ := Text.isBlank_cons.mp hgap
    rw [List.cons_append, setFrom_blank hb, ih hgap, List.isEmpty_cons, Bool.not_false,
      Bool.true_or, Bool.or_true]

/-- What the pass can do at a character: it writes the character, maybe with a space before it. -/
theorem setFrom_cases {c : CodePoint} (hc : c.isBlank = false) (after gap : Bool) (s : Text) :
    ∃ space, Text.isBlank space = true ∧
      setFrom after gap (c :: s) = space ++ c :: setFrom (isTight c) false s := by
  rw [setFrom_char hc]
  split
  · exact ⟨[.char ' '], by decide, rfl⟩
  · exact ⟨[], rfl, rfl⟩

theorem inks_setFrom (after gap : Bool) (s : Text) : inks (setFrom after gap s) = inks s := by
  induction s generalizing after gap with
  | nil => rfl
  | cons c s ih =>
    cases hc : c.isBlank with
    | true =>
      rw [setFrom_blank hc, ih, ← List.singleton_append,
        inks_gap (Text.isBlank_cons.mpr ⟨hc, rfl⟩)]
    | false =>
      obtain ⟨space, hspace, h⟩ := setFrom_cases hc after gap s
      rw [h, inks_gap hspace, inks_cons hc, inks_cons hc, ih]

/-- What is written behind a character does not depend on what is before it. -/
theorem exists_setFrom_append (after gap : Bool) (front : Text) {x : CodePoint}
    (hx : x.isBlank = false) (s : Text) :
    ∃ front', setFrom after gap (front ++ x :: s) = front' ++ x :: setFrom (isTight x) false s ∧
      inks front' = inks front := by
  induction front generalizing after gap with
  | nil =>
    obtain ⟨space, hspace, h⟩ := setFrom_cases hx after gap s
    exact ⟨space, h, inks_eq_nil_iff.mpr hspace⟩
  | cons c front ih =>
    cases hc : c.isBlank with
    | true =>
      obtain ⟨front', h, hinks⟩ := ih after true
      refine ⟨front', by rw [List.cons_append, setFrom_blank hc, h], ?_⟩
      rw [hinks, ← List.singleton_append, inks_gap (Text.isBlank_cons.mpr ⟨hc, rfl⟩)]
    | false =>
      obtain ⟨space, hspace, h⟩ := setFrom_cases hc after gap (front ++ x :: s)
      obtain ⟨front', hrest, hinks⟩ := ih (isTight c) false
      refine ⟨space ++ c :: front', ?_, ?_⟩
      · rw [List.cons_append, h, hrest, List.append_assoc, List.cons_append]
      · rw [inks_gap hspace, inks_cons hc, inks_cons hc, hinks]

/-- Behind a gap a space comes first, or a character that wants none before it. -/
theorem head?_setFrom_gap {s : Text} {c : CodePoint}
    (h : (setFrom false true s).head? = some c) :
    c.isBlank = true ∨ isTight c = true ∨ c = .char '!' := by
  induction s using Text.gap_induction with
  | blank gap hgap =>
    have hnil := setFrom_gap hgap false true []
    rw [List.append_nil] at hnil
    rw [hnil] at h
    cases h
  | char gap x s hgap hx _ =>
    rw [setFrom_gap hgap, setFrom_char hx] at h
    split at h
    · obtain rfl := Option.some.inj h
      exact Or.inl (by decide)
    · rename_i hspace
      obtain rfl : x = c := Option.some.inj h
      refine Or.inr ?_
      cases htight : isTight x with
      | true => exact Or.inl rfl
      | false =>
        rw [htight] at hspace
        refine Or.inr (startsWith_importantMark (s := setFrom false false s) ?_)
        simpa using hspace

theorem not_isPrefixOf_of_ne {x c : CodePoint} (h : x ≠ c) {letters s : Text} :
    (x :: letters).isPrefixOf (c :: s) = false := by
  rw [List.isPrefixOf_cons_cons, beq_false_of_ne h, Bool.false_and]

/-- Behind a gap a text does not begin with a character that wants a space before it. -/
theorem not_isPrefixOf_setFrom_gap {x : CodePoint} (hx : x.isBlank = false)
    (htight : isTight x = false) (hmark : x ≠ .char '!') (letters s : Text) :
    (x :: letters).isPrefixOf (setFrom false true s) = false := by
  cases hset : setFrom false true s with
  | nil => rfl
  | cons z rest =>
    refine not_isPrefixOf_of_ne ?_
    rintro rfl
    rcases head?_setFrom_gap (congrArg List.head? hset) with hz | hz | hz
    · rw [hx] at hz
      cases hz
    · rw [htight] at hz
      cases hz
    · exact hmark hz

/-- The pass does not change whether a text begins with a word whose letters all want a space before
them. -/
theorem isPrefixOf_setFrom {letters : Text}
    (h : ∀ x ∈ letters, x.isBlank = false ∧ isTight x = false ∧ x ≠ .char '!') (s : Text) :
    letters.isPrefixOf (setFrom false false s) = letters.isPrefixOf s := by
  induction letters generalizing s with
  | nil => rw [List.isPrefixOf_nil_left, List.isPrefixOf_nil_left]
  | cons x letters ih =>
    obtain ⟨⟨hx, htight, hmark⟩, hletters⟩ := List.forall_mem_cons.mp h
    cases s with
    | nil => rfl
    | cons y s =>
      cases hy : y.isBlank with
      | true =>
        have hxy : x ≠ y := by
          rintro rfl
          rw [hx] at hy
          cases hy
        rw [setFrom_blank hy, not_isPrefixOf_of_ne hxy, not_isPrefixOf_setFrom_gap hx htight hmark]
      | false =>
        rw [setFrom_char hy, Bool.false_and, Bool.false_and, Bool.false_and, if_neg (by simp),
          List.isPrefixOf_cons_cons, List.isPrefixOf_cons_cons]
        by_cases hxy : x = y
        · rw [← hxy, htight, ih hletters]
        · rw [beq_false_of_ne hxy, Bool.false_and, Bool.false_and]

/-- The pass does not change where important marks begin. -/
theorem startsWith_setFrom (c : CodePoint) (s : Text) :
    Text.startsWith (c :: setFrom (isTight c) false s) importantMark =
      Text.startsWith (c :: s) importantMark := by
  have hmarkEq : importantMark = .char '!' :: Text.ofString "important" := rfl
  rw [Text.startsWith, Text.startsWith, hmarkEq, List.isPrefixOf_cons_cons,
    List.isPrefixOf_cons_cons]
  by_cases hc : CodePoint.char '!' = c
  · have htight : isTight c = false := by
      rw [← hc]
      decide
    rw [htight, isPrefixOf_setFrom (by decide) s]
  · rw [beq_false_of_ne hc, Bool.false_and, Bool.false_and]

/-- Between two characters the pass writes what is to stand there. -/
theorem setFrom_between (x : CodePoint) {gap : Text} (hgap : Text.isBlank gap = true)
    {y : CodePoint} (hy : y.isBlank = false) (behind : Text) :
    setFrom (isTight x) false (gap ++ y :: behind) =
      keptGap x gap y behind ++ y :: setFrom (isTight y) false behind := by
  rw [setFrom_gap hgap, setFrom_char hy, startsWith_setFrom, keptGap]
  cases gap with
  | nil => simp
  | cons b gap =>
    cases isTight x <;> cases isTight y <;>
      cases Text.startsWith (y :: behind) importantMark <;> simp

/-! ## The compact form -/

theorem withoutIdle_cons {c : CodePoint} (hc : c ≠ .char ';') (s : Text) :
    withoutIdle (c :: s) = c :: withoutIdle s := by
  rw [withoutIdle, beq_false_of_ne hc]
  rfl

theorem withoutIdle_gap {gap : Text} (hgap : Text.isBlank gap = true) (s : Text) :
    withoutIdle (gap ++ s) = gap ++ withoutIdle s := by
  induction gap with
  | nil => rfl
  | cons b gap ih =>
    obtain ⟨hb, hgap⟩ := Text.isBlank_cons.mp hgap
    have hne : b ≠ .char ';' := by
      rintro rfl
      exact absurd hb (by decide)
    rw [List.cons_append, withoutIdle_cons hne, ih hgap, List.cons_append]

/-- Idle semicolons are told by what is behind them, so a text in front does not matter. -/
theorem exists_withoutIdle_append (front s : Text) :
    ∃ front', withoutIdle (front ++ s) = front' ++ withoutIdle s ∧ front'.Sublist front := by
  induction front with
  | nil => exact ⟨[], rfl, List.Sublist.refl []⟩
  | cons c front ih =>
    obtain ⟨front', h, hsub⟩ := ih
    rw [List.cons_append, withoutIdle]
    split
    · exact ⟨front', h, hsub.cons c⟩
    · exact ⟨c :: front', by rw [h]; rfl, hsub.cons_cons c⟩

/-- Where no closing brace comes next, what is behind does not matter either. -/
theorem withoutIdle_append {s : Text} (h : closes s = false) (front : Text) :
    withoutIdle (front ++ s) = withoutIdle front ++ withoutIdle s := by
  induction front with
  | nil => rfl
  | cons c front ih =>
    have hcloses := closes_append (s := front) (u := s) (v := []) fun _ => h
    rw [List.append_nil] at hcloses
    rw [List.cons_append, withoutIdle, withoutIdle, hcloses, ih]
    split <;> rfl

/-- Idle semicolons left out, important marks begin where they did. -/
theorem startsWith_withoutIdle (s : Text) :
    Text.startsWith (withoutIdle s) importantMark = Text.startsWith s importantMark := by
  have hprefix : ∀ (letters s : Text),
      (∀ x ∈ letters, x.isBlank = false ∧ isDelimiter x = false) →
      letters.isPrefixOf (withoutIdle s) = letters.isPrefixOf s := by
    intro letters
    induction letters with
    | nil =>
      intro s _
      rw [List.isPrefixOf_nil_left, List.isPrefixOf_nil_left]
    | cons x letters ih =>
      intro s h
      obtain ⟨⟨hx, hrun⟩, hletters⟩ := List.forall_mem_cons.mp h
      have hdelimiter : ∀ {d}, isDelimiter d = true → x ≠ d := by
        rintro d hd rfl
        rw [hrun] at hd
        cases hd
      cases s with
      | nil => rfl
      | cons c s =>
        cases hidle : (c == .char ';' && closes s) with
        | true =>
          -- the letter is neither the semicolon nor what comes next without it
          obtain ⟨hsemi, hcloses⟩ := Bool.and_eq_true_iff.mp hidle
          obtain rfl := eq_of_beq hsemi
          obtain ⟨blanks, rest, rfl, hblanks⟩ := closes_iff.mp hcloses
          rw [withoutIdle, hidle, if_pos rfl, withoutIdle_gap hblanks,
            withoutIdle_cons (by decide), not_isPrefixOf_of_ne (hdelimiter (by decide))]
          cases blanks with
          | nil => exact not_isPrefixOf_of_ne (hdelimiter (by decide))
          | cons b blanks =>
            refine not_isPrefixOf_of_ne ?_
            rintro rfl
            rw [(Text.isBlank_cons.mp hblanks).1] at hx
            cases hx
        | false =>
          rw [withoutIdle, hidle, if_neg Bool.false_ne_true, List.isPrefixOf_cons_cons,
            List.isPrefixOf_cons_cons, ih s hletters]
  exact hprefix importantMark s (by decide)

theorem squeezeFrom_eq_setFrom (after gap : Bool) (s : Text) :
    squeezeFrom after gap s = setFrom after gap (withoutIdle s) := by
  induction s generalizing after gap with
  | nil => rfl
  | cons c s ih =>
    cases hidle : (c == .char ';' && closes s) with
    | true =>
      obtain ⟨hsemi, hcloses⟩ := Bool.and_eq_true_iff.mp hidle
      obtain rfl := eq_of_beq hsemi
      obtain ⟨blanks, rest, rfl, hblanks⟩ := closes_iff.mp hcloses
      -- at the brace the state of the pass does not matter
      have hbrace : withoutIdle (.char '}' :: rest) = .char '}' :: withoutIdle rest := rfl
      have hset : ∀ after gap, setFrom after gap (blanks ++ .char '}' :: withoutIdle rest) =
          .char '}' :: setFrom true false (withoutIdle rest) := by
        intro after gap
        have htight : isTight (.char '}') = true := by decide
        rw [setFrom_gap hblanks, setFrom_char (by decide), htight]
        simp
      rw [squeezeFrom_idle hcloses, ih, withoutIdle, hidle, if_pos rfl, withoutIdle_gap hblanks,
        hbrace, hset, hset]
    | false =>
      have hkept : withoutIdle (c :: s) = c :: withoutIdle s := by
        rw [withoutIdle, hidle]
        rfl
      rw [hkept]
      cases hc : c.isBlank with
      | true => rw [squeezeFrom_blank hc, setFrom_blank hc, ih]
      | false =>
        simp only [squeezeFrom, hc, hidle, Bool.false_eq_true, if_false, ih, setFrom_char hc]

theorem compact_closelySet (s : Text) : CloselySet (withoutIdle s) (compact s) := by
  have hset : compact s = setFrom true false (withoutIdle s) := by
    rw [compact_eq_squeezeFrom, squeezeFrom_eq_setFrom]
  constructor
  · rw [hset, inks_setFrom]
  · intro front x gap y behind hs hx hgap hy
    obtain ⟨front', hfront, hinks⟩ := exists_setFrom_append true false front hx (gap ++ y :: behind)
    refine ⟨front', setFrom (isTight y) false behind, ?_, hinks, inks_setFrom _ _ _⟩
    rw [hset, hs, hfront, setFrom_between x hgap hy]
  · intro c hc
    rw [compact_eq_squeezeFrom] at hc
    exact squeezeFrom_head hc
  · intro c hc
    rw [compact_eq_squeezeFrom] at hc
    exact squeezeFrom_getLast hc

/-- The compact form of a text is the text without its idle semicolons, closely set. -/
theorem compact_eq_iff (s o : Text) : compact s = o ↔ CloselySet (withoutIdle s) o := by
  constructor
  · rintro rfl
    exact compact_closelySet s
  · intro h
    exact (compact_closelySet s).unique h

end TextTidy.Css
