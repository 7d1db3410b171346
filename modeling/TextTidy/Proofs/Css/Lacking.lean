import TextTidy.Proofs.Css.Repair

/-!
# Where a semicolon is lacking

A semicolon is lacking behind a colon that a name leads to and an open value follows. Of a name only
its being there counts, so the spelling pass, which writes names for names, leaves every semicolon
that is lacking as it is.
-/

namespace TextTidy.Css

/-! ## Looking ahead from character to character -/

theorem trimStart_blank {b : CodePoint} (hb : b.isBlank = true) (s : Text) :
    Text.trimStart (b :: s) = Text.trimStart s := by
  have hgap : Text.isBlank [b] = true := Text.isBlank_cons.mpr ⟨hb, rfl⟩
  exact Text.trimStart_append hgap s

theorem colonFollows_cons (c : CodePoint) (s : Text) :
    colonFollows (c :: s) = if c.isBlank then colonFollows s else c == .char ':' := by
  cases hc : c.isBlank with
  | true => rw [colonFollows, trimStart_blank hc, if_pos rfl, colonFollows]
  | false =>
    rw [colonFollows, Text.trimStart_cons hc, if_neg Bool.false_ne_true]
    by_cases hcolon : c = .char ':'
    · subst hcolon
      rfl
    · rw [beq_false_of_ne hcolon]
      split
      · simp_all
      · rfl

theorem closes_cons_eq (c : CodePoint) (s : Text) :
    closes (c :: s) = if c.isBlank then closes s else c == .char '}' := by
  cases hc : c.isBlank with
  | true => rw [closes, trimStart_blank hc, if_pos rfl, closes]
  | false =>
    rw [closes, Text.trimStart_cons hc, if_neg Bool.false_ne_true]
    rfl

theorem openValue?_cons_isSome (c : CodePoint) (s : Text) :
    (openValue? (c :: s)).isSome =
      (!isDelimiter c && ((openValue? s).isSome || endsDeclaration s)) := by
  rw [openValue?]
  cases isDelimiter c with
  | true => rfl
  | false => cases openValue? s <;> cases endsDeclaration s <;> rfl

/-! ## Open places -/

/-- Whether a colon comes next, blanks aside, and an open value behind it. -/
def openBehind (s : Text) : Bool :=
  match Text.trimStart s with
  | .char ':' :: value => (openValue? value).isSome
  | _ => false

theorem openBehind_gap {gap : Text} (hgap : Text.isBlank gap = true) (value : Text) :
    openBehind (gap ++ .char ':' :: value) = (openValue? value).isSome := by
  rw [openBehind, Text.trimStart_gap hgap (by decide)]
  rfl

theorem openBehind_iff {s : Text} :
    openBehind s = true ↔
      ∃ gap value, s = gap ++ .char ':' :: value ∧ Text.isBlank gap = true ∧
        (openValue? value).isSome = true := by
  constructor
  · intro h
    have hcolon : colonFollows s = true := by
      unfold openBehind at h
      split at h
      · rename_i hvalue
        simp only [colonFollows, hvalue]
      · cases h
    obtain ⟨gap, value, rfl, hgap⟩ := colonFollows_iff.mp hcolon
    rw [openBehind_gap hgap] at h
    exact ⟨gap, value, rfl, hgap, h⟩
  · rintro ⟨gap, value, rfl, hgap, hvalue⟩
    rw [openBehind_gap hgap, hvalue]

theorem openBehind_cons (c : CodePoint) (s : Text) :
    openBehind (c :: s) =
      if c.isBlank then openBehind s else c == .char ':' && (openValue? s).isSome := by
  cases hc : c.isBlank with
  | true => rw [openBehind, trimStart_blank hc, if_pos rfl, openBehind]
  | false =>
    rw [openBehind, Text.trimStart_cons hc, if_neg Bool.false_ne_true]
    by_cases hcolon : c = .char ':'
    · subst hcolon
      rfl
    · rw [beq_false_of_ne hcolon]
      split
      · simp_all
      · rfl

/-- A semicolon is lacking exactly if a character of a name has an open place behind it. -/
theorem lacksSemicolon_iff_open {s : Text} :
    lacksSemicolon s = true ↔
      ∃ pre c rest, s = pre ++ c :: rest ∧ isNameChar c = true ∧ openBehind rest = true := by
  rw [lacksSemicolon_iff]
  constructor
  · rintro ⟨pre, decl, more, rfl, hdecl, hends⟩
    obtain ⟨hname, hchars, hgap, hvalue, hrun⟩ := hdecl
    rename_i name gap value
    obtain ⟨init, c, rfl⟩ := Text.exists_concat hname
    refine ⟨pre ++ init, c, gap ++ .char ':' :: (value ++ more), by simp, hchars c (by simp), ?_⟩
    rw [openBehind_gap hgap]
    exact openValue?_isSome hvalue hrun hends
  · rintro ⟨pre, c, rest, rfl, hc, hopen⟩
    obtain ⟨gap, value, rfl, hgap, hvalue⟩ := openBehind_iff.mp hopen
    obtain ⟨n, hn⟩ := Option.isSome_iff_exists.mp hvalue
    obtain ⟨v, more, rfl, -, hne, hrun, hends, -⟩ := openValue?_eq_some hn
    refine ⟨pre, [c] ++ (gap ++ .char ':' :: v), more, by simp, ?_, hends⟩
    exact .mk (List.cons_ne_nil c []) (by simpa using hc) hgap hne hrun

theorem lacksSemicolon_cons (c : CodePoint) (s : Text) :
    lacksSemicolon (c :: s) = ((isNameChar c && openBehind s) || lacksSemicolon s) := by
  rw [Bool.eq_iff_iff, Bool.or_eq_true, Bool.and_eq_true, lacksSemicolon_iff_open,
    lacksSemicolon_iff_open]
  constructor
  · rintro ⟨pre, x, rest, hs, hx, hopen⟩
    cases pre with
    | nil =>
      obtain ⟨rfl, rfl⟩ := List.cons.inj hs
      exact Or.inl ⟨hx, hopen⟩
    | cons y pre => exact Or.inr ⟨pre, x, rest, (List.cons.inj hs).2, hx, hopen⟩
  · rintro (⟨hc, hopen⟩ | ⟨pre, x, rest, rfl, hx, hopen⟩)
    · exact ⟨[], c, s, rfl, hc, hopen⟩
    · exact ⟨c :: pre, x, rest, rfl, hx, hopen⟩

/-! ## Names for names -/

/-- Two texts are open alike if every look ahead finds the same in both. -/
structure OpenAlike (s o : Text) : Prop where
  colon : colonFollows s = colonFollows o
  /-- Also when the characters in front still belong to a name. -/
  name : colonFollows (s.dropWhile isNameChar) = colonFollows (o.dropWhile isNameChar)
  next : propertyFollows (Text.trimStart s) = propertyFollows (Text.trimStart o)
  closes : closes s = closes o
  ends : endsDeclaration s = endsDeclaration o
  value : (openValue? s).isSome = (openValue? o).isSome
  behind : openBehind s = openBehind o
  lacks : lacksSemicolon s = lacksSemicolon o

namespace OpenAlike

variable {s o : Text}

theorem refl (s : Text) : OpenAlike s s := ⟨rfl, rfl, rfl, rfl, rfl, rfl, rfl, rfl⟩

theorem keep (h : OpenAlike s o) (c : CodePoint) : OpenAlike (c :: s) (c :: o) := by
  have hname : colonFollows ((c :: s).dropWhile isNameChar) =
      colonFollows ((c :: o).dropWhile isNameChar) := by
    rw [List.dropWhile_cons, List.dropWhile_cons]
    split
    · exact h.name
    · rw [colonFollows_cons, colonFollows_cons, h.colon]
  have hnext : propertyFollows (Text.trimStart (c :: s)) =
      propertyFollows (Text.trimStart (c :: o)) := by
    cases hc : c.isBlank with
    | true => rw [trimStart_blank hc, trimStart_blank hc, h.next]
    | false =>
      rw [Text.trimStart_cons hc, Text.trimStart_cons hc, propertyFollows, propertyFollows, h.name]
  have hcloses : Css.closes (c :: s) = Css.closes (c :: o) := by
    rw [closes_cons_eq, closes_cons_eq, h.closes]
  refine ⟨?_, hname, hnext, hcloses, ?_, ?_, ?_, ?_⟩
  · rw [colonFollows_cons, colonFollows_cons, h.colon]
  · rw [endsDeclaration_eq, endsDeclaration_eq, nextProperty, nextProperty, hnext, hcloses]
  · rw [openValue?_cons_isSome, openValue?_cons_isSome, h.value, h.ends]
  · rw [openBehind_cons, openBehind_cons, h.behind, h.value]
  · rw [lacksSemicolon_cons, lacksSemicolon_cons, h.behind, h.lacks]

/-- What a name in front of a text leaves of its open places. -/
theorem name_front {name : Text} (hchars : ∀ c ∈ name, isNameChar c = true) (hne : name ≠ [])
    (s : Text) :
    colonFollows (name ++ s) = false ∧ Css.closes (name ++ s) = false ∧
      endsDeclaration (name ++ s) = false ∧ openBehind (name ++ s) = false ∧
      (openValue? (name ++ s)).isSome = ((openValue? s).isSome || endsDeclaration s) ∧
      lacksSemicolon (name ++ s) = (openBehind s || lacksSemicolon s) := by
  induction name with
  | nil => exact absurd rfl hne
  | cons c name ih =>
    rw [List.forall_mem_cons] at hchars
    obtain ⟨hc, hname⟩ := hchars
    have hblank := not_isBlank_of_isNameChar hc
    have hdelim := not_isDelimiter_of_isNameChar hc
    have hcolon : (c == .char ':') = false := by
      rw [beq_eq_false_iff_ne]
      rintro rfl
      exact absurd hc (by decide)
    have hclose := not_closing_of_not_isDelimiter hdelim
    have hends : ∀ t, endsDeclaration (c :: t) = false := by
      intro t
      rw [endsDeclaration_eq, nextProperty, hblank, closes_cons_eq, hblank, hclose]
      rfl
    have hbehind : ∀ t, openBehind (c :: t) = false := by
      intro t
      rw [openBehind_cons, hblank, hcolon]
      rfl
    refine ⟨?_, ?_, hends _, hbehind _, ?_, ?_⟩
    · rw [List.cons_append, colonFollows_cons, hblank, hcolon]
      rfl
    · rw [List.cons_append, closes_cons_eq, hblank, hclose]
      rfl
    · rw [List.cons_append, openValue?_cons_isSome, hdelim, Bool.not_false, Bool.true_and]
      cases name with
      | nil => rfl
      | cons x name =>
        obtain ⟨-, -, hlast, -, hvalue, -⟩ := ih hname (List.cons_ne_nil x name)
        rw [hvalue, hlast, Bool.or_false]
    · rw [List.cons_append, lacksSemicolon_cons, hc, Bool.true_and]
      cases name with
      | nil => rfl
      | cons x name =>
        obtain ⟨-, -, -, hlast, -, hlacks⟩ := ih hname (List.cons_ne_nil x name)
        rw [hlacks, hlast, Bool.false_or]

theorem word {wrong right : Text} (hwrong : ∀ c ∈ wrong, isNameChar c = true)
    (hright : ∀ c ∈ right, isNameChar c = true) (hne : wrong ≠ []) (hne' : right ≠ [])
    (h : OpenAlike s o) : OpenAlike (wrong ++ s) (right ++ o) := by
  have hname : ∀ {name t : Text}, (∀ c ∈ name, isNameChar c = true) →
      colonFollows ((name ++ t).dropWhile isNameChar) = colonFollows (t.dropWhile isNameChar) := by
    intro name t hchars
    rw [List.dropWhile_append_of_pos hchars]
  have hnext : ∀ {name t : Text}, (∀ c ∈ name, isNameChar c = true) → name ≠ [] →
      propertyFollows (Text.trimStart (name ++ t)) = colonFollows (t.dropWhile isNameChar) := by
    intro name t hchars hne
    cases name with
    | nil => exact absurd rfl hne
    | cons c name =>
      rw [List.forall_mem_cons] at hchars
      rw [List.cons_append, Text.trimStart_cons (not_isBlank_of_isNameChar hchars.1),
        propertyFollows, hchars.1, Bool.true_and, hname hchars.2]
  obtain ⟨h1, h2, h3, h4, h5, h6⟩ := name_front hwrong hne s
  obtain ⟨h1', h2', h3', h4', h5', h6'⟩ := name_front hright hne' o
  refine ⟨?_, ?_, ?_, ?_, ?_, ?_, ?_, ?_⟩
  · rw [h1, h1']
  · rw [hname hwrong, hname hright, h.name]
  · rw [hnext hwrong hne, hnext hright hne', h.name]
  · rw [h2, h2']
  · rw [h3, h3']
  · rw [h5, h5', h.value, h.ends]
  · rw [h4, h4']
  · rw [h6, h6', h.behind, h.lacks]

end OpenAlike

theorem correctSpelling_openAlike (s : Text) : OpenAlike s (correctSpelling s) := by
  refine correctSpelling_relates (.refl []) (fun c _ _ h => h.keep c) ?_ s
  intro entry hmem s o h
  obtain ⟨hwrong, hright⟩ := misspellings_isNameChar entry hmem
  obtain ⟨hpos, hlen, hle⟩ := misspellings_length entry hmem
  refine h.word hwrong hright ?_ ?_
  · exact List.ne_nil_of_length_pos (by omega)
  · exact List.ne_nil_of_length_pos (by omega)

/-- No semicolon is lacking more or less in a respelt text. -/
theorem lacksSemicolon_correctSpelling (s : Text) :
    lacksSemicolon (correctSpelling s) = lacksSemicolon s :=
  (correctSpelling_openAlike s).lacks.symm

/-! ## Corrected texts without their spelling -/

/-- The text with its semicolons and its closing braces, misspelt as it is. -/
def mended (s : Text) : Text :=
  insertSemicolons s ++ List.replicate (balance s).missing (.char '}')

theorem correctSpelling_append_replicate (s : Text) (n : Nat) :
    correctSpelling (s ++ List.replicate n (.char '}')) =
      correctSpelling s ++ List.replicate n (.char '}') := by
  induction n generalizing s with
  | zero => rw [List.replicate_zero, List.append_nil, List.append_nil]
  | succ n ih =>
    have hbraces : correctSpelling (List.replicate n (.char '}')) =
        List.replicate n (.char '}') := ih []
    rw [List.replicate_succ, correctSpelling_append (by decide), hbraces]

theorem corrected_eq_mended {s : Text} (hextra : (balance s).extra = false) :
    corrected s = correctSpelling (mended s) := by
  have hbalance : balance (correctSpelling (insertSemicolons s)) = balance s := by
    rw [(correctSpelling_alike _).balance_eq, balance_insertSemicolons]
  rw [corrected, closeBlocks_of_not_extra (by rw [hbalance, hextra]), hbalance, mended,
    correctSpelling_append_replicate]

/-- A correction makes a text valid if no brace is stray and the mended text is in order. -/
theorem isValid_corrected_iff {s : Text} :
    (validate (corrected s)).isValid = true ↔
      (balance s).extra = false ∧ lacksSemicolon (mended s) = false ∧
        wellFormed (mended s) = true := by
  cases hextra : (balance s).extra with
  | true =>
    constructor
    · intro hvalid
      have := (repairable_of_isValid_corrected hvalid).1
      rw [hextra] at this
      cases this
    · rintro ⟨h, -⟩
      cases h
  | false =>
    have hmended : balance (mended s) = ⟨0, false⟩ := by
      have hclosed := balanceFrom_replicate (balance s).missing 0 false
      rw [Nat.zero_add] at hclosed
      rw [mended, balance, balanceFrom_append, ← balance, balance_insertSemicolons, hextra, hclosed]
    rw [corrected_eq_mended hextra, isValid_iff, lacksSemicolon_correctSpelling,
      (correctSpelling_alike _).balance_eq, (correctSpelling_alike _).wellFormed_eq]
    constructor
    · rintro ⟨-, hlacks, hformat⟩
      exact ⟨rfl, hlacks, hformat⟩
    · rintro ⟨-, hlacks, hformat⟩
      exact ⟨hmended, hlacks, hformat⟩

theorem mended_of_isValid {s : Text} (h : (validate s).isValid = true) : mended s = s := by
  obtain ⟨hbalance, hlacks, -⟩ := isValid_iff.mp h
  rw [mended, insertSemicolons_eq_self_iff.mpr hlacks, hbalance]
  exact List.append_nil s

/-- A correction does a valid text no harm. -/
theorem isValid_corrected {s : Text} (h : (validate s).isValid = true) :
    (validate (corrected s)).isValid = true := by
  obtain ⟨hbalance, hlacks, hformat⟩ := isValid_iff.mp h
  rw [isValid_corrected_iff, mended_of_isValid h, hbalance]
  exact ⟨rfl, hlacks, hformat⟩

/-- There is a compact text exactly if the corrected one is valid. -/
theorem tidy_succeeded_iff {raw : Text} :
    (tidy raw).succeeded = true ↔
      Text.isBlank raw = false ∧ (validate (corrected (stripComments raw))).isValid = true := by
  rcases tidy_cases raw with ⟨hblank, houtcome⟩ | ⟨hblank, hvalid, houtcome⟩ |
    ⟨hblank, -, hvalid, houtcome⟩ | ⟨hblank, -, hinvalid, houtcome⟩
  · rw [houtcome, hblank]
    simp [Outcome.succeeded, Outcome.ofKind]
  · rw [houtcome, isValid_corrected hvalid]
    exact ⟨fun _ => ⟨hblank, rfl⟩, fun _ => rfl⟩
  · rw [houtcome, hvalid]
    exact ⟨fun _ => ⟨hblank, rfl⟩, fun _ => rfl⟩
  · rw [houtcome, hinvalid]
    simp [Outcome.succeeded]

end TextTidy.Css
