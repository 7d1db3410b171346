import TextTidy.Css.Compact
import TextTidy.Css.Declaration

/-!
# Classes of characters

The scans of a stylesheet tell characters apart by class: braces and semicolons, tight marks,
blanks, the characters of names. Which of these classes meet is settled here, once.
-/

namespace TextTidy.Css

variable {c : CodePoint}

/-- Two classes that do not meet do not meet the other way round either. -/
theorem not_of_disjoint {f g : CodePoint → Bool} (h : ∀ {c}, f c = true → g c = false)
    (hg : g c = true) : f c = false := by
  cases hf : f c with
  | false => rfl
  | true => exact absurd hg (by simp [h hf])

/-! ## Delimiters and tight marks -/

theorem isBrace_iff : isBrace c = true ↔ c = .char '{' ∨ c = .char '}' := by
  simp [isBrace]

theorem isDelimiter_iff :
    isDelimiter c = true ↔ c = .char ';' ∨ c = .char '{' ∨ c = .char '}' := by
  simp [isDelimiter, isBrace]

theorem ne_opening_of_not_isDelimiter (h : isDelimiter c = false) : c ≠ .char '{' := by
  rintro rfl
  exact absurd h (by decide)

theorem not_closing_of_not_isDelimiter (h : isDelimiter c = false) : (c == .char '}') = false := by
  rw [beq_eq_false_iff_ne]
  rintro rfl
  exact absurd h (by decide)

theorem not_isBrace_of_not_isDelimiter (h : isDelimiter c = false) : isBrace c = false := by
  rw [isDelimiter, Bool.or_eq_false_iff] at h
  exact h.2

theorem isTight_iff :
    isTight c = true ↔ c = .char '{' ∨ c = .char '}' ∨ c = .char ':' ∨ c = .char ';' ∨
      c = .char ',' ∨ c = .char '>' ∨ c = .char '+' ∨ c = .char '~' := by
  simp [isTight]

theorem isTight_of_isDelimiter (h : isDelimiter c = true) : isTight c = true := by
  rcases isDelimiter_iff.mp h with rfl | rfl | rfl <;> decide

theorem not_isWordChar_of_isTight (h : isTight c = true) : isWordChar c = false := by
  rcases isTight_iff.mp h with rfl | rfl | rfl | rfl | rfl | rfl | rfl | rfl <;> decide

theorem not_isWordChar_of_isDelimiter (h : isDelimiter c = true) : isWordChar c = false :=
  not_isWordChar_of_isTight (isTight_of_isDelimiter h)

/-! ## Blanks -/

theorem not_isBlank_of_isTight (h : isTight c = true) : c.isBlank = false := by
  rcases isTight_iff.mp h with rfl | rfl | rfl | rfl | rfl | rfl | rfl | rfl <;> decide

theorem not_isBlank_of_isDelimiter (h : isDelimiter c = true) : c.isBlank = false :=
  not_isBlank_of_isTight (isTight_of_isDelimiter h)

theorem not_isDelimiter_of_isBlank (h : c.isBlank = true) : isDelimiter c = false :=
  not_of_disjoint not_isBlank_of_isDelimiter h

theorem not_isBrace_of_isBlank (h : c.isBlank = true) : isBrace c = false :=
  not_isBrace_of_not_isDelimiter (not_isDelimiter_of_isBlank h)

/-- The letters, digits and the underscore, by their numbers. -/
theorem isWordChar_range (h : isWordChar c = true) :
    (48 ≤ c.value ∧ c.value ≤ 57) ∨ (65 ≤ c.value ∧ c.value ≤ 90) ∨ c.value = 95 ∨
      (97 ≤ c.value ∧ c.value ≤ 122) := by
  cases c with
  | surrogate index => simp [isWordChar] at h
  | char ch =>
    have hword : ((((decide (65 ≤ ch.val ∧ ch.val ≤ 90)) ||
        (decide (97 ≤ ch.val) && decide (ch.val ≤ 122))) ||
        (decide (48 ≤ ch.val) && decide (ch.val ≤ 57))) || ch == '_') = true := h
    simp only [Bool.or_eq_true, beq_iff_eq, Bool.and_eq_true, decide_eq_true_eq] at hword
    rcases hword with ((⟨h1, h2⟩ | ⟨h1, h2⟩) | ⟨h1, h2⟩) | rfl
    · exact Or.inr (Or.inl ⟨h1, h2⟩)
    · exact Or.inr (Or.inr (Or.inr ⟨h1, h2⟩))
    · exact Or.inl ⟨h1, h2⟩
    · exact Or.inr (Or.inr (Or.inl rfl))

theorem not_isWordChar_of_isBlank (h : c.isBlank = true) : isWordChar c = false := by
  refine not_of_disjoint (f := isWordChar) (fun {c} hword => ?_) h
  have hrange := isWordChar_range hword
  simp only [CodePoint.isBlank, CodePoint.within, blankRanges, List.any_cons, List.any_nil,
    Bool.or_false, Bool.or_eq_false_iff, Bool.and_eq_false_iff, decide_eq_false_iff_not]
  omega

/-! ## The characters of names -/

/-- The letters and the hyphen, by their numbers. -/
theorem isNameChar_range (h : isNameChar c = true) :
    c.value = 45 ∨ (65 ≤ c.value ∧ c.value ≤ 90) ∨ (97 ≤ c.value ∧ c.value ≤ 122) := by
  cases c with
  | surrogate index => simp [isNameChar] at h
  | char ch =>
    have hletter : (((decide (65 ≤ ch.val ∧ ch.val ≤ 90)) ||
        (decide (97 ≤ ch.val) && decide (ch.val ≤ 122))) || ch == '-') = true := h
    simp only [Bool.or_eq_true, beq_iff_eq, Bool.and_eq_true, decide_eq_true_eq] at hletter
    rcases hletter with (⟨h1, h2⟩ | ⟨h1, h2⟩) | rfl
    · exact Or.inr (Or.inl ⟨h1, h2⟩)
    · exact Or.inr (Or.inr ⟨h1, h2⟩)
    · exact Or.inl rfl

theorem not_isBlank_of_isNameChar (h : isNameChar c = true) : c.isBlank = false := by
  have hrange := isNameChar_range h
  simp only [CodePoint.isBlank, CodePoint.within, blankRanges, List.any_cons, List.any_nil,
    Bool.or_false, Bool.or_eq_false_iff, Bool.and_eq_false_iff, decide_eq_false_iff_not]
  omega

theorem not_isNameChar_of_isBlank (h : c.isBlank = true) : isNameChar c = false :=
  not_of_disjoint not_isBlank_of_isNameChar h

theorem not_isNameChar_of_isTight (h : isTight c = true) : isNameChar c = false := by
  rcases isTight_iff.mp h with rfl | rfl | rfl | rfl | rfl | rfl | rfl | rfl <;> decide

theorem not_isNameChar_of_isDelimiter (h : isDelimiter c = true) : isNameChar c = false :=
  not_isNameChar_of_isTight (isTight_of_isDelimiter h)

theorem not_isDelimiter_of_isNameChar (h : isNameChar c = true) : isDelimiter c = false :=
  not_of_disjoint not_isNameChar_of_isDelimiter h

end TextTidy.Css
