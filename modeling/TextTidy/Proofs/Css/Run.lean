import TextTidy.Proofs.Blank
import TextTidy.Proofs.Css.Brace

/-!
# Runs

Semicolons and braces cut a text into runs. No look ahead sees beyond the delimiter behind a run,
and a value is open at its start as far as the run has a place where a declaration may end.
-/

namespace TextTidy.Css

/-! ## Runs -/

/-- A text without delimiters. -/
def IsRun (s : Text) : Prop := ∀ c ∈ s, isDelimiter c = false

theorem isRun_nil : IsRun [] := by
  intro c hc
  cases hc

theorem isRun_cons {c : CodePoint} {s : Text} :
    IsRun (c :: s) ↔ isDelimiter c = false ∧ IsRun s := by
  simp [IsRun]

theorem isRun_append {s t : Text} : IsRun (s ++ t) ↔ IsRun s ∧ IsRun t := by
  simp [IsRun, or_imp, forall_and]

theorem isRun_of_name {name : Text} (h : ∀ c ∈ name, isNameChar c = true) : IsRun name :=
  fun c hc => not_isDelimiter_of_isNameChar (h c hc)

theorem isRun_of_isBlank {gap : Text} (h : Text.isBlank gap = true) : IsRun gap :=
  fun c hc => not_isDelimiter_of_isBlank (Text.isBlank_iff.mp h c hc)

theorem Braceless.of_isRun {run : Text} (h : IsRun run) : Braceless run :=
  fun c hc => not_isBrace_of_not_isDelimiter (h c hc)

/-- Induction along a text from run to run. -/
theorem run_induction {motive : Text → Prop} (last : ∀ run, IsRun run → motive run)
    (more : ∀ run d rest, IsRun run → isDelimiter d = true → motive rest →
      motive (run ++ d :: rest)) (s : Text) : motive s := by
  refine Text.span_induction (fun c => !isDelimiter c) (fun run hrun => ?_)
    (fun run d rest hrun hd hrest => ?_) s
  · exact last run (by simpa [IsRun] using hrun)
  · exact more run d rest (by simpa [IsRun] using hrun) (by simpa using hd) hrest

/-! ## Looking ahead -/

theorem ne_colon_of_isDelimiter {d : CodePoint} (hd : isDelimiter d = true) : d ≠ .char ':' := by
  rintro rfl
  exact absurd hd (by decide)

theorem trimStart_append_delimiter {d : CodePoint} (hd : isDelimiter d = true) (s rest : Text) :
    Text.trimStart (s ++ d :: rest) = Text.trimStart s ++ d :: rest :=
  Text.dropWhile_append_stop (not_isBlank_of_isDelimiter hd) s rest

/-- No colon is seen beyond a character that is neither one itself nor a blank. -/
theorem colonFollows_append_stop {d : CodePoint} (hblank : d.isBlank = false) (hne : d ≠ .char ':')
    (s rest : Text) : colonFollows (s ++ d :: rest) = colonFollows s := by
  rw [colonFollows, Text.trimStart, Text.dropWhile_append_stop hblank, ← Text.trimStart,
    colonFollows]
  cases Text.trimStart s with
  | nil =>
    simp only [List.nil_append]
    split
    · simp_all
    · rfl
  | cons c t =>
    simp only [List.cons_append]
    split <;> split <;> simp_all

theorem colonFollows_append_delimiter {d : CodePoint} (hd : isDelimiter d = true)
    (s rest : Text) : colonFollows (s ++ d :: rest) = colonFollows s :=
  colonFollows_append_stop (not_isBlank_of_isDelimiter hd) (ne_colon_of_isDelimiter hd) s rest

theorem propertyFollows_append_delimiter {d : CodePoint} (hd : isDelimiter d = true)
    (s rest : Text) : propertyFollows (s ++ d :: rest) = propertyFollows s := by
  cases s with
  | nil => simp [propertyFollows, not_isNameChar_of_isDelimiter hd]
  | cons c s =>
    rw [List.cons_append, propertyFollows, propertyFollows,
      Text.dropWhile_append_stop (not_isNameChar_of_isDelimiter hd),
      colonFollows_append_delimiter hd]

/-- Of a delimiter the search only sees whether it is a closing brace. -/
theorem endsDeclaration_append_delimiter {d : CodePoint} (hd : isDelimiter d = true)
    (s rest : Text) :
    endsDeclaration (s ++ d :: rest) =
      (endsDeclaration s || (Text.isBlank s && d == .char '}')) := by
  cases s with
  | nil =>
    simp [endsDeclaration, not_isBlank_of_isDelimiter hd, Text.isBlank,
      Text.trimStart_cons (not_isBlank_of_isDelimiter hd)]
  | cons c s =>
    rw [List.cons_append, endsDeclaration, endsDeclaration, ← List.cons_append,
      trimStart_append_delimiter hd, propertyFollows_append_delimiter hd]
    cases hs : Text.trimStart (c :: s) with
    | nil =>
      have : Text.isBlank (c :: s) = true := by
        have := List.dropWhile_eq_nil_iff.mp hs
        exact Text.isBlank_iff.mpr this
      simp [this]
    | cons x t =>
      have : Text.isBlank (c :: s) = false := by
        rw [← Bool.not_eq_true]
        intro h
        rw [Text.trimStart_of_isBlank h] at hs
        cases hs
      simp [this]

theorem colonFollows_iff {s : Text} :
    colonFollows s = true ↔
      ∃ gap rest, s = gap ++ .char ':' :: rest ∧ Text.isBlank gap = true := by
  constructor
  · intro h
    rw [colonFollows] at h
    split at h
    · rename_i rest hrest
      refine ⟨Text.leadingBlanks s, rest, ?_, Text.isBlank_leadingBlanks s⟩
      rw [← hrest, Text.leadingBlanks_append_trimStart]
    · cases h
  · rintro ⟨gap, rest, rfl, hgap⟩
    rw [colonFollows, Text.trimStart_gap hgap (by decide)]
    rfl

/-- A name before a colon ends where it seems to. -/
theorem span_name {name gap : Text} (hchars : ∀ c ∈ name, isNameChar c = true)
    (hgap : Text.isBlank gap = true) (rest : Text) :
    (name ++ (gap ++ .char ':' :: rest)).takeWhile isNameChar = name ∧
      (name ++ (gap ++ .char ':' :: rest)).dropWhile isNameChar = gap ++ .char ':' :: rest := by
  cases gap with
  | nil => exact ⟨Text.takeWhile_span hchars (by decide) rest,
      Text.dropWhile_span hchars (by decide) rest⟩
  | cons b gap =>
    have hb := not_isNameChar_of_isBlank (Text.isBlank_cons.mp hgap).1
    exact ⟨Text.takeWhile_span hchars hb _, Text.dropWhile_span hchars hb _⟩

theorem propertyFollows_iff {s : Text} :
    propertyFollows s = true ↔
      ∃ name gap rest, s = name ++ (gap ++ .char ':' :: rest) ∧ name ≠ [] ∧
        (∀ c ∈ name, isNameChar c = true) ∧ Text.isBlank gap = true := by
  constructor
  · intro h
    cases s with
    | nil => cases h
    | cons c s =>
      obtain ⟨hc, hcolon⟩ := Bool.and_eq_true_iff.mp h
      obtain ⟨gap, rest, hrest, hgap⟩ := colonFollows_iff.mp hcolon
      refine ⟨c :: s.takeWhile isNameChar, gap, rest, ?_, by simp, ?_, hgap⟩
      · rw [← hrest, List.cons_append, List.takeWhile_append_dropWhile]
      · intro x hx
        rcases List.mem_cons.mp hx with rfl | hx
        · exact hc
        · exact List.mem_takeWhile_imp hx
  · rintro ⟨name, gap, rest, rfl, hne, hchars, hgap⟩
    cases name with
    | nil => exact absurd rfl hne
    | cons c name =>
      have htail : ∀ x ∈ name, isNameChar x = true := fun x hx =>
        hchars x (List.mem_cons_of_mem c hx)
      have hbehind := (span_name htail hgap rest).2
      rw [List.cons_append, propertyFollows, hchars c (by simp), hbehind,
        colonFollows_iff.mpr ⟨gap, rest, rfl, hgap⟩]
      rfl

/-- Whether a closing brace comes next, blanks aside. -/
def closes (s : Text) : Bool := (Text.trimStart s).head? == some (.char '}')

theorem closes_iff {s : Text} :
    closes s = true ↔ ∃ gap rest, s = gap ++ .char '}' :: rest ∧ Text.isBlank gap = true := by
  constructor
  · intro h
    obtain ⟨rest, hrest⟩ := List.head?_eq_some_iff.mp (eq_of_beq h)
    refine ⟨Text.leadingBlanks s, rest, ?_, Text.isBlank_leadingBlanks s⟩
    rw [← hrest, Text.leadingBlanks_append_trimStart]
  · rintro ⟨gap, rest, rfl, hgap⟩
    rw [closes, Text.trimStart_gap hgap (by decide)]
    rfl

theorem closes_cons (rest : Text) : closes (.char '}' :: rest) = true :=
  closes_iff.mpr ⟨[], rest, rfl, rfl⟩

theorem closes_gap {gap : Text} (hgap : Text.isBlank gap = true) {c : CodePoint}
    (hc : c.isBlank = false) (s : Text) : closes (gap ++ c :: s) = (c == .char '}') := by
  rw [closes, Text.trimStart_gap hgap hc]
  rfl

theorem closes_append {s u v : Text} (h : Text.isBlank s = true → closes u = closes v) :
    closes (s ++ u) = closes (s ++ v) := by
  rcases Text.exists_span CodePoint.isBlank s with hblank | ⟨gap, c, rest, rfl, hgap, hc⟩
  · have hgap := Text.isBlank_iff.mpr hblank
    rw [closes, closes, Text.trimStart_append hgap, Text.trimStart_append hgap]
    exact h hgap
  · have hgap := Text.isBlank_iff.mpr hgap
    rw [closes, closes, List.append_assoc, List.append_assoc, List.cons_append, List.cons_append,
      Text.trimStart_gap hgap hc, Text.trimStart_gap hgap hc]
    rfl

/-- Whether a blank comes next, and then another property. -/
def nextProperty : Text → Bool
  | [] => false
  | c :: rest => c.isBlank && propertyFollows (Text.trimStart (c :: rest))

theorem nextProperty_iff {s : Text} :
    nextProperty s = true ↔
      ∃ gap name gap' rest, s = gap ++ (name ++ (gap' ++ .char ':' :: rest)) ∧ gap ≠ [] ∧
        Text.isBlank gap = true ∧ name ≠ [] ∧ (∀ c ∈ name, isNameChar c = true) ∧
        Text.isBlank gap' = true := by
  constructor
  · intro h
    cases s with
    | nil => cases h
    | cons c s =>
      obtain ⟨hc, hnext⟩ := Bool.and_eq_true_iff.mp h
      obtain ⟨name, gap', rest, hrest, hne, hchars, hgap'⟩ := propertyFollows_iff.mp hnext
      refine ⟨Text.leadingBlanks (c :: s), name, gap', rest, ?_, by simp [Text.leadingBlanks, hc],
        Text.isBlank_leadingBlanks _, hne, hchars, hgap'⟩
      rw [← hrest, Text.leadingBlanks_append_trimStart]
  · rintro ⟨gap, name, gap', rest, rfl, hgapne, hgap, hne, hchars, hgap'⟩
    have hnext := propertyFollows_iff.mpr ⟨name, gap', rest, rfl, hne, hchars, hgap'⟩
    cases gap with
    | nil => exact absurd rfl hgapne
    | cons b gap =>
      cases name with
      | nil => exact absurd rfl hne
      | cons c name =>
        have hc := not_isBlank_of_isNameChar (hchars c (by simp))
        have htrim := Text.trimStart_gap hgap hc (name ++ (gap' ++ .char ':' :: rest))
        rw [List.cons_append] at hnext htrim ⊢
        rw [List.cons_append, nextProperty, htrim, hnext, (Text.isBlank_cons.mp hgap).1]
        rfl

theorem nextProperty_append {s : Text} (h : nextProperty s = true) (more : Text) :
    nextProperty (s ++ more) = true := by
  obtain ⟨gap, name, gap', rest, rfl, hgapne, hgap, hne, hchars, hgap'⟩ := nextProperty_iff.mp h
  exact nextProperty_iff.mpr
    ⟨gap, name, gap', rest ++ more, by simp, hgapne, hgap, hne, hchars, hgap'⟩

theorem nextProperty_append_delimiter {d : CodePoint} (hd : isDelimiter d = true)
    (s rest : Text) : nextProperty (s ++ d :: rest) = nextProperty s := by
  cases s with
  | nil => simp [nextProperty, not_isBlank_of_isDelimiter hd]
  | cons c s =>
    rw [List.cons_append, nextProperty, nextProperty, ← List.cons_append,
      trimStart_append_delimiter hd, propertyFollows_append_delimiter hd]

/-- A declaration may end before another property and before a closing brace. -/
theorem endsDeclaration_eq (s : Text) : endsDeclaration s = (nextProperty s || closes s) := by
  cases s <;> rfl

/-! ## Open values -/

theorem openValue?_append_delimiter {d : CodePoint} (hd : isDelimiter d = true) (s rest : Text) :
    openValue? (s ++ d :: rest) = openValue? (s ++ [d]) := by
  induction s with
  | nil => simp [openValue?, hd]
  | cons c s ih =>
    rw [List.cons_append, List.cons_append, openValue?, openValue?, ih,
      endsDeclaration_append_delimiter hd, endsDeclaration_append_delimiter hd]

theorem openValue?_concat {d : CodePoint} (hd : isDelimiter d = true) (hne : d ≠ .char '}')
    (s : Text) : openValue? (s ++ [d]) = openValue? s := by
  induction s with
  | nil => simp [openValue?, hd]
  | cons c s ih =>
    rw [List.cons_append, openValue?, openValue?, ih, endsDeclaration_append_delimiter hd]
    simp [hne]

/-- The longest open value, with what is behind it. Behind it there is no further one. -/
theorem openValue?_eq_some {s : Text} {n : Nat} (h : openValue? s = some n) :
    ∃ value rest, s = value ++ rest ∧ value.length = n ∧ value ≠ [] ∧ IsRun value ∧
      endsDeclaration rest = true ∧ openValue? rest = none := by
  induction s generalizing n with
  | nil => cases h
  | cons c s ih =>
    rw [openValue?] at h
    cases hc : isDelimiter c with
    | true => simp [hc] at h
    | false =>
      rw [hc, if_neg Bool.false_ne_true] at h
      cases hs : openValue? s with
      | some m =>
        obtain ⟨value, rest, rfl, hlen, _, hrun, hends, hnone⟩ := ih hs
        simp only [hs, Option.some.injEq] at h
        exact ⟨c :: value, rest, rfl, by rw [← h, ← hlen, List.length_cons], by simp,
          isRun_cons.mpr ⟨hc, hrun⟩, hends, hnone⟩
      | none =>
        simp only [hs] at h
        split at h
        · rename_i hends
          cases h
          exact ⟨[c], s, rfl, rfl, by simp, isRun_cons.mpr ⟨hc, isRun_nil⟩, hends, hs⟩
        · cases h

theorem openValue?_isSome {value rest : Text} (hne : value ≠ []) (hrun : IsRun value)
    (hends : endsDeclaration rest = true) : (openValue? (value ++ rest)).isSome = true := by
  induction value with
  | nil => exact absurd rfl hne
  | cons c value ih =>
    obtain ⟨hc, hrun⟩ := isRun_cons.mp hrun
    rw [List.cons_append, openValue?, hc, if_neg Bool.false_ne_true]
    cases hv : openValue? (value ++ rest) with
    | some n => rfl
    | none =>
      cases value with
      | nil => simp [hends]
      | cons x value =>
        have := ih (by simp) hrun
        rw [hv] at this
        cases this

/-- Where a run has no open value, no part of it at its end has one. -/
theorem openValue?_of_append {run s : Text} (hrun : IsRun run)
    (h : openValue? (run ++ s) = none) : openValue? s = none := by
  induction run with
  | nil => exact h
  | cons c run ih =>
    obtain ⟨hc, hrun⟩ := isRun_cons.mp hrun
    rw [List.cons_append, openValue?, hc, if_neg Bool.false_ne_true] at h
    cases hs : openValue? (run ++ s) with
    | some n => simp [hs] at h
    | none => exact ih hrun hs

end TextTidy.Css
