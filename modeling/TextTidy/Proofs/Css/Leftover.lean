import TextTidy.Proofs.Css.CompactForm

/-!
# Semicolons that compaction leaves idle

Of several semicolons before a closing brace, compaction leaves out the last one only, and those
before it are idle from then on. This is the only way in which a compact text can have an idle
semicolon, and the only reason why a second compaction would change it.
-/

namespace TextTidy.Css

/-- Whether a semicolon stands behind another one, with at most blanks between them. -/
def repeatsSemicolon : Text → Bool
  | [] => false
  | c :: rest =>
    (c == .char ';' && (Text.trimStart rest).head? == some (.char ';')) || repeatsSemicolon rest

theorem repeatsSemicolon_iff {s : Text} :
    repeatsSemicolon s = true ↔
      ∃ front gap behind, s = front ++ .char ';' :: (gap ++ .char ';' :: behind) ∧
        Text.isBlank gap = true := by
  induction s with
  | nil => simp [repeatsSemicolon]
  | cons c rest ih =>
    rw [repeatsSemicolon, Bool.or_eq_true, ih, Bool.and_eq_true, beq_iff_eq, beq_iff_eq]
    constructor
    · rintro (⟨rfl, hnext⟩ | ⟨front, gap, behind, rfl, hgap⟩)
      · obtain ⟨behind, hbehind⟩ := List.head?_eq_some_iff.mp hnext
        refine ⟨[], Text.leadingBlanks rest, behind, ?_, Text.isBlank_leadingBlanks rest⟩
        rw [← hbehind, Text.leadingBlanks_append_trimStart]
        rfl
      · exact ⟨c :: front, gap, behind, rfl, hgap⟩
    · rintro ⟨front, gap, behind, hs, hgap⟩
      cases front with
      | nil =>
        obtain ⟨rfl, rfl⟩ := List.cons.inj hs
        exact Or.inl ⟨rfl, by rw [Text.trimStart_gap hgap (by decide)]; rfl⟩
      | cons d front => exact Or.inr ⟨front, gap, behind, (List.cons.inj hs).2, hgap⟩

/-! ## Where idle semicolons are left -/

/-- What begins with a closing brace was made from such a text, or from one with an idle semicolon
before the brace. -/
theorem closes_of_head?_squeezeFrom {s : Text} {after gap : Bool}
    (h : (squeezeFrom after gap s).head? = some (.char '}')) :
    closes s = true ∨
      ∃ blanks rest, s = blanks ++ .char ';' :: rest ∧ Text.isBlank blanks = true ∧
        closes rest = true := by
  induction s generalizing after gap with
  | nil => cases h
  | cons c s ih =>
    rcases squeezeFrom_cases after gap c s with ⟨hc, hs⟩ | ⟨rfl, hcloses, -⟩ | ⟨-, -, hs⟩ |
      ⟨-, -, -, -, -, hs⟩
    · rw [hs] at h
      rcases ih h with hcloses | ⟨blanks, rest, rfl, hblanks, hcloses⟩
      · obtain ⟨blanks, rest, rfl, hblanks⟩ := closes_iff.mp hcloses
        exact Or.inl (closes_iff.mpr ⟨c :: blanks, rest, rfl, Text.isBlank_cons.mpr ⟨hc, hblanks⟩⟩)
      · exact Or.inr ⟨c :: blanks, rest, rfl, Text.isBlank_cons.mpr ⟨hc, hblanks⟩, hcloses⟩
    · exact Or.inr ⟨[], s, rfl, Text.isBlank_nil, hcloses⟩
    · rw [hs] at h
      obtain rfl : c = .char '}' := Option.some.inj h
      exact Or.inl (closes_cons s)
    · rw [hs] at h
      exact absurd (Option.some.inj h) (by decide)

/-- An idle semicolon in what the pass writes was followed by another one. -/
theorem exists_repeated_of_squeezeFrom {s x y : Text} {after gap : Bool}
    (h : squeezeFrom after gap s = x ++ .char ';' :: .char '}' :: y) :
    ∃ front blanks behind, s = front ++ .char ';' :: (blanks ++ .char ';' :: behind) ∧
      Text.isBlank blanks = true ∧ closes behind = true := by
  induction s generalizing after gap x with
  | nil => exact absurd h (by simp [squeezeFrom])
  | cons c s ih =>
    have hlater : ∀ {x after gap}, squeezeFrom after gap s = x ++ .char ';' :: .char '}' :: y →
        ∃ front blanks behind, c :: s = front ++ .char ';' :: (blanks ++ .char ';' :: behind) ∧
          Text.isBlank blanks = true ∧ closes behind = true := by
      intro x after gap h
      obtain ⟨front, blanks, behind, rfl, hblanks, hcloses⟩ := ih h
      exact ⟨c :: front, blanks, behind, rfl, hblanks, hcloses⟩
    rcases squeezeFrom_cases after gap c s with ⟨-, hs⟩ | ⟨-, -, hs⟩ | ⟨-, hidle, hs⟩ |
      ⟨-, -, -, htight, -, hs⟩
    · exact hlater (hs.symm.trans h)
    · exact hlater (hs.symm.trans h)
    · rw [hs] at h
      cases x with
      | nil =>
        -- this semicolon is not idle in the text, so another one was left out behind it
        obtain ⟨rfl, hrest⟩ := List.cons.inj h
        rcases closes_of_head?_squeezeFrom (congrArg List.head? hrest) with hcloses |
          ⟨blanks, behind, rfl, hblanks, hcloses⟩
        · rw [hcloses] at hidle
          cases hidle
        · exact ⟨[], blanks, behind, rfl, hblanks, hcloses⟩
      | cons d x => exact hlater (List.cons.inj h).2
    · rw [hs] at h
      cases x with
      | nil => exact absurd (List.cons.inj h).1 (by decide)
      | cons d x =>
        have hrest := (List.cons.inj h).2
        cases x with
        | nil =>
          obtain ⟨rfl, -⟩ := List.cons.inj hrest
          exact absurd htight (by decide)
        | cons e x => exact hlater (List.cons.inj hrest).2

/-- A compact text has an idle semicolon exactly if the text has two semicolons before a closing
brace, with at most blanks between them and behind them. -/
theorem exists_idle_compact_iff {s : Text} :
    (∃ x y, compact s = x ++ .char ';' :: .char '}' :: y) ↔
      ∃ front gap behind, s = front ++ .char ';' :: (gap ++ .char ';' :: behind) ∧
        Text.isBlank gap = true ∧ closes behind = true := by
  constructor
  · rintro ⟨x, y, h⟩
    rw [compact_eq_squeezeFrom] at h
    exact exists_repeated_of_squeezeFrom h
  · rintro ⟨front, gap, behind, rfl, hgap, hcloses⟩
    obtain ⟨gap', rest, rfl, hgap'⟩ := closes_iff.mp hcloses
    have hsemi : ∀ t, closes (.char ';' :: t) = false := fun _ => rfl
    have hkept : withoutIdle (.char ';' :: (gap ++ .char ';' :: (gap' ++ .char '}' :: rest))) =
        .char ';' :: ((gap ++ gap') ++ .char '}' :: withoutIdle rest) := by
      rw [withoutIdle, closes_gap hgap (by decide), withoutIdle_gap hgap, withoutIdle, hcloses,
        withoutIdle_gap hgap', List.append_assoc]
      rfl
    have hblanks : Text.isBlank (gap ++ gap') = true := Text.isBlank_append.mpr ⟨hgap, hgap'⟩
    obtain ⟨front', behind', h, -, -⟩ := (compact_closelySet _).between (withoutIdle front)
      (.char ';') (gap ++ gap') (.char '}') (withoutIdle rest)
      ((withoutIdle_append (hsemi _) front).trans (congrArg _ hkept)) (by decide) hblanks
      (by decide)
    have hnone : keptGap (.char ';') (gap ++ gap') (.char '}') (withoutIdle rest) = [] := by
      rw [keptGap, if_neg]
      rintro ⟨-, htight, -⟩
      exact absurd htight (by decide)
    exact ⟨front', behind', by rw [h, hnone]; rfl⟩

/-! ## A second compaction -/

/-- Compaction takes an idle semicolon away. -/
theorem compact_ne_of_idle {s x y : Text} (hs : s = x ++ .char ';' :: .char '}' :: y) :
    compact s ≠ s := by
  intro hsame
  have hinks := (compact_closelySet s).inks
  rw [hsame] at hinks
  have hcount : ∀ t : Text, (inks t).count (.char ';') = t.count (.char ';') := fun t =>
    List.count_filter (by decide)
  have hequal : s.count (.char ';') = (withoutIdle s).count (.char ';') := by
    rw [← hcount, hinks, hcount]
  obtain ⟨x', hx', hsub⟩ := exists_withoutIdle_append x (.char ';' :: .char '}' :: y)
  obtain ⟨y', hy', hsub'⟩ := exists_withoutIdle_append y []
  rw [List.append_nil] at hy'
  have hidle : withoutIdle (.char ';' :: .char '}' :: y) = .char '}' :: y' := by
    rw [withoutIdle, closes_cons, withoutIdle, hy', withoutIdle, List.append_nil]
    rfl
  have hbefore : s.count (.char ';') = x.count (.char ';') + (y.count (.char ';') + 1) := by
    simp [hs]
  have hafter : (withoutIdle s).count (.char ';') =
      x'.count (.char ';') + y'.count (.char ';') := by
    simp [hs, hx', hidle]
  have hle := hsub.count_le (.char ';')
  have hle' := hsub'.count_le (.char ';')
  omega

/-- Compaction is idempotent at a text exactly if it leaves no idle semicolon in it, and it leaves
none in a text where no semicolon stands behind another one. -/
theorem compact_twice_iff (s : Text) :
    (compact (compact s) = compact s ↔
      Text.contains (compact s) (Text.ofString ";\x7d") = false) ∧
    (repeatsSemicolon s = false →
      Text.contains (compact s) (Text.ofString ";\x7d") = false) := by
  have hidle : Text.contains (compact s) (Text.ofString ";\x7d") = true ↔
      ∃ x y, compact s = x ++ .char ';' :: .char '}' :: y := Text.contains_iff
  constructor
  · refine ⟨fun h => ?_, compact_idempotent⟩
    rw [← Bool.not_eq_true, hidle]
    rintro ⟨x, y, hs⟩
    exact compact_ne_of_idle hs h
  · intro h
    rw [← Bool.not_eq_true, hidle, exists_idle_compact_iff]
    rintro ⟨front, gap, behind, hs, hgap, -⟩
    rw [repeatsSemicolon_iff.mpr ⟨front, gap, behind, hs, hgap⟩] at h
    cases h

/-- Two declarations, each with its semicolon, are compact after one compaction. -/
theorem compact_twice_two_declarations :
    repeatsSemicolon (Text.ofString "a \x7b b : c ; d : e ; \x7d ") = false ∧
      compact (Text.ofString "a \x7b b : c ; d : e ; \x7d ") = Text.ofString "a\x7bb:c;d:e\x7d" ∧
      compact (compact (Text.ofString "a \x7b b : c ; d : e ; \x7d ")) =
        compact (Text.ofString "a \x7b b : c ; d : e ; \x7d ") := by
  have hsingle : repeatsSemicolon (Text.ofString "a \x7b b : c ; d : e ; \x7d ") = false := by
    decide +kernel
  obtain ⟨htwice, hnone⟩ := compact_twice_iff (Text.ofString "a \x7b b : c ; d : e ; \x7d ")
  exact ⟨hsingle, by decide +kernel, htwice.mpr (hnone hsingle)⟩

end TextTidy.Css
