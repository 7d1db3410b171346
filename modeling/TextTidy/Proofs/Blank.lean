import Mathlib.Data.List.TakeWhile
import TextTidy.Text.Blank

/-!
# Gaps and ends

A text is a sequence of characters with gaps of white space between them. What trimming and the
search for the next character that is no white space do is stated here once, for texts written in
that form.
-/

namespace TextTidy.Text

/-! ## Spans -/

theorem takeWhile_span {f : CodePoint → Bool} {s : Text} (hs : ∀ x ∈ s, f x = true)
    {c : CodePoint} (hc : f c = false) (rest : Text) : (s ++ c :: rest).takeWhile f = s := by
  rw [List.takeWhile_append_of_pos hs]
  simp [hc]

theorem dropWhile_span {f : CodePoint → Bool} {s : Text} (hs : ∀ x ∈ s, f x = true)
    {c : CodePoint} (hc : f c = false) (rest : Text) :
    (s ++ c :: rest).dropWhile f = c :: rest := by
  rw [List.dropWhile_append_of_pos hs]
  simp [hc]

/-- A span ends at a character that fails the test, whatever is behind it. -/
theorem dropWhile_append_stop {f : CodePoint → Bool} {d : CodePoint} (hd : f d = false)
    (s rest : Text) : (s ++ d :: rest).dropWhile f = s.dropWhile f ++ d :: rest := by
  induction s with
  | nil => simp [hd]
  | cons c s ih => cases hc : f c <;> simp [hc, ih]

theorem takeWhile_append_stop {f : CodePoint → Bool} {d : CodePoint} (hd : f d = false)
    (s rest : Text) : (s ++ d :: rest).takeWhile f = s.takeWhile f := by
  induction s with
  | nil => simp [hd]
  | cons c s ih => cases hc : f c <;> simp [hc, ih]

/-- A text whose characters do not all pass a test has a first one that fails it. -/
theorem exists_span (f : CodePoint → Bool) (s : Text) :
    (∀ x ∈ s, f x = true) ∨
      ∃ run c rest, s = run ++ c :: rest ∧ (∀ x ∈ run, f x = true) ∧ f c = false := by
  induction s with
  | nil => exact Or.inl (by simp)
  | cons a s ih =>
    cases ha : f a with
    | false => exact Or.inr ⟨[], a, s, rfl, by simp, ha⟩
    | true =>
      rcases ih with h | ⟨run, c, rest, rfl, hrun, hc⟩
      · exact Or.inl (by simpa [ha] using h)
      · exact Or.inr ⟨a :: run, c, rest, rfl, by simpa [ha] using hrun, hc⟩

/-- A text that is not empty ends in a last character. -/
theorem exists_concat {s : Text} (hne : s ≠ []) : ∃ front c, s = front ++ [c] :=
  ⟨_, _, (List.dropLast_concat_getLast hne).symm⟩

/-- Induction along a text from one character that fails a test to the next. -/
theorem span_induction (f : CodePoint → Bool) {motive : Text → Prop}
    (last : ∀ run, (∀ x ∈ run, f x = true) → motive run)
    (more : ∀ run c rest, (∀ x ∈ run, f x = true) → f c = false → motive rest →
      motive (run ++ c :: rest)) (s : Text) : motive s := by
  have h : ∀ (n : Nat) (s : Text), s.length ≤ n → motive s := by
    intro n
    induction n with
    | zero =>
      intro s hs
      rw [List.length_eq_zero_iff.mp (Nat.le_zero.mp hs)]
      exact last [] (by simp)
    | succ n ih =>
      intro s hs
      rcases exists_span f s with hrun | ⟨run, c, rest, rfl, hrun, hc⟩
      · exact last s hrun
      · refine more run c rest hrun hc (ih rest ?_)
        simp only [List.length_append, List.length_cons] at hs
        omega
  exact h s.length s (Nat.le_refl _)

/-! ## Beginnings -/

theorem dropStart?_eq_some {start : List Char} {s rest : Text}
    (h : dropStart? start s = some rest) : s = start.map CodePoint.char ++ rest := by
  induction start generalizing s with
  | nil => exact Option.some.inj h
  | cons a start ih =>
    cases s with
    | nil => cases h
    | cons c s =>
      rw [dropStart?] at h
      split at h
      · rename_i hc
        rw [hc, ih h]
        rfl
      · cases h

theorem dropStart?_append (start : List Char) (s : Text) :
    dropStart? start (start.map CodePoint.char ++ s) = some s := by
  induction start with
  | nil => rfl
  | cons a start ih => rw [List.map_cons, List.cons_append, dropStart?, if_pos rfl, ih]

/-! ## Parts -/

theorem contains_append (part before behind : Text) :
    contains (before ++ part ++ behind) part = true := by
  induction before with
  | nil =>
    rw [List.nil_append]
    cases part with
    | nil => cases behind <;> rfl
    | cons c part =>
      have hstart : startsWith (c :: part ++ behind) (c :: part) = true :=
        List.isPrefixOf_iff_prefix.mpr (List.prefix_append _ _)
      rw [List.cons_append, contains, ← List.cons_append, hstart]
      rfl
  | cons c before ih =>
    rw [List.cons_append, List.cons_append, contains, ih, Bool.or_true]

theorem contains_iff {s part : Text} :
    contains s part = true ↔ ∃ x y, s = x ++ (part ++ y) := by
  constructor
  · intro h
    induction s with
    | nil =>
      rw [contains, List.isEmpty_iff] at h
      exact ⟨[], [], by rw [h]; rfl⟩
    | cons c s ih =>
      rw [contains, Bool.or_eq_true] at h
      rcases h with h | h
      · obtain ⟨y, hy⟩ := List.isPrefixOf_iff_prefix.mp h
        exact ⟨[], y, hy.symm⟩
      · obtain ⟨x, y, rfl⟩ := ih h
        exact ⟨c :: x, y, rfl⟩
  · rintro ⟨x, y, rfl⟩
    rw [← List.append_assoc]
    exact contains_append part x y

/-! ## Gaps -/

theorem isBlank_iff {s : Text} : isBlank s = true ↔ ∀ c ∈ s, c.isBlank = true :=
  List.all_eq_true

theorem isBlank_nil : isBlank [] = true := rfl

theorem isBlank_cons {c : CodePoint} {s : Text} :
    isBlank (c :: s) = true ↔ c.isBlank = true ∧ isBlank s = true := by
  simp [isBlank]

theorem isBlank_append {s t : Text} :
    isBlank (s ++ t) = true ↔ isBlank s = true ∧ isBlank t = true := by
  simp [isBlank]

theorem exists_last_blank {gap : Text} (hgap : isBlank gap = true) (hne : gap ≠ []) :
    ∃ front b, gap = front ++ [b] ∧ isBlank front = true ∧ b.isBlank = true := by
  obtain ⟨front, b, rfl⟩ := exists_concat hne
  obtain ⟨hfront, hb⟩ := isBlank_append.mp hgap
  exact ⟨front, b, rfl, hfront, (isBlank_cons.mp hb).1⟩

/-- Induction along a text from gap to gap. -/
theorem gap_induction {motive : Text → Prop} (blank : ∀ gap, isBlank gap = true → motive gap)
    (char : ∀ gap c s, isBlank gap = true → c.isBlank = false → motive s → motive (gap ++ c :: s))
    (s : Text) : motive s :=
  span_induction CodePoint.isBlank (fun gap hgap => blank gap (isBlank_iff.mpr hgap))
    (fun gap c s hgap hc hs => char gap c s (isBlank_iff.mpr hgap) hc hs) s

theorem trimStart_of_isBlank {gap : Text} (hgap : isBlank gap = true) : trimStart gap = [] :=
  List.dropWhile_eq_nil_iff.mpr (isBlank_iff.mp hgap)

theorem trimStart_append {gap : Text} (hgap : isBlank gap = true) (s : Text) :
    trimStart (gap ++ s) = trimStart s :=
  List.dropWhile_append_of_pos (isBlank_iff.mp hgap)

theorem trimStart_cons {c : CodePoint} (hc : c.isBlank = false) (s : Text) :
    trimStart (c :: s) = c :: s := by
  simp [trimStart, hc]

theorem trimStart_gap {gap : Text} (hgap : isBlank gap = true) {c : CodePoint}
    (hc : c.isBlank = false) (s : Text) : trimStart (gap ++ c :: s) = c :: s :=
  dropWhile_span (isBlank_iff.mp hgap) hc s

theorem trimStart_trimStart (s : Text) : trimStart (trimStart s) = trimStart s := by
  induction s using gap_induction with
  | blank gap hgap => rw [trimStart_of_isBlank hgap]; rfl
  | char gap c s hgap hc _ => rw [trimStart_gap hgap hc, trimStart_cons hc]

theorem leadingBlanks_of_isBlank {gap : Text} (hgap : isBlank gap = true) :
    leadingBlanks gap = gap :=
  List.takeWhile_eq_self_iff.mpr (isBlank_iff.mp hgap)

theorem leadingBlanks_gap {gap : Text} (hgap : isBlank gap = true) {c : CodePoint}
    (hc : c.isBlank = false) (s : Text) : leadingBlanks (gap ++ c :: s) = gap :=
  takeWhile_span (isBlank_iff.mp hgap) hc s

theorem isBlank_leadingBlanks (s : Text) : isBlank (leadingBlanks s) = true :=
  isBlank_iff.mpr fun _ hc => List.mem_takeWhile_imp hc

/-- Dropping the characters of the leading gap leaves what trimming leaves. -/
theorem drop_leadingBlanks (s : Text) : s.drop (leadingBlanks s).length = trimStart s := by
  have h : (leadingBlanks s ++ trimStart s).drop (leadingBlanks s).length = trimStart s := by
    rw [List.drop_left]
  rwa [leadingBlanks_append_trimStart] at h

/-! ## Trimming both ends -/

theorem trimEnd_append {gap : Text} (hgap : isBlank gap = true) (s : Text) :
    trimEnd (s ++ gap) = trimEnd s := by
  have hrev : isBlank gap.reverse = true := by
    rw [isBlank_iff] at hgap ⊢
    intro c hc
    exact hgap c (List.mem_reverse.mp hc)
  rw [trimEnd, trimEnd, List.reverse_append, trimStart_append hrev]

theorem trimEnd_concat {c : CodePoint} (hc : c.isBlank = false) (s : Text) :
    trimEnd (s ++ [c]) = s ++ [c] := by
  rw [trimEnd, List.reverse_append, List.reverse_singleton, List.singleton_append,
    trimStart_cons hc]
  simp

/-- Trimming takes a gap off either end. -/
theorem exists_trim (s : Text) :
    ∃ before behind, isBlank before = true ∧ isBlank behind = true ∧
      s = before ++ trim s ++ behind := by
  have hfront := leadingBlanks_append_trimStart s
  have hback := leadingBlanks_append_trimStart (trimStart s).reverse
  refine ⟨leadingBlanks s, (leadingBlanks (trimStart s).reverse).reverse,
    isBlank_leadingBlanks s, ?_, ?_⟩
  · rw [isBlank_iff]
    intro c hc
    exact isBlank_iff.mp (isBlank_leadingBlanks _) c (List.mem_reverse.mp hc)
  · have hcore : trim s ++ (leadingBlanks (trimStart s).reverse).reverse = trimStart s := by
      rw [trim, trimEnd, ← List.reverse_append, hback, List.reverse_reverse]
    rw [List.append_assoc, hcore, hfront]

theorem trim_eq_nil_iff {s : Text} : trim s = [] ↔ isBlank s = true := by
  constructor
  · intro h
    obtain ⟨before, behind, hbefore, hbehind, hs⟩ := exists_trim s
    rw [hs, h, List.append_nil, isBlank_append]
    exact ⟨hbefore, hbehind⟩
  · intro h
    rw [trim, trimStart_of_isBlank h]
    rfl

end TextTidy.Text
