import TextTidy.Proofs.Scan
import TextTidy.Proofs.Css.Run

/-!
# The passes of compaction

The passes read a text gap by gap, and what becomes of a gap depends on the characters next to it
only. Each pass is described at a gap with the character behind it, and then all of them together.
-/

namespace TextTidy.Css

/-! ## Blanks -/

/-- What is left of a gap: one space, or nothing if there was no gap. -/
def spaceOf (gap : Text) : Text := if gap.isEmpty then [] else [.char ' ']

theorem isBlank_spaceOf (gap : Text) : Text.isBlank (spaceOf gap) = true := by
  cases gap with
  | nil => rfl
  | cons b gap =>
    show Text.isBlank [.char ' '] = true
    decide

theorem collapseBlanks_cons {c : CodePoint} (hc : c.isBlank = false) (s : Text) :
    collapseBlanks (c :: s) = c :: collapseBlanks s := by
  refine Pattern.replace_cons_of_none (fun _ _ _ => rfl) ?_
  simp [blankRun, hc]

theorem collapseBlanks_gap {gap : Text} (hgap : Text.isBlank gap = true) {c : CodePoint}
    (hc : c.isBlank = false) (s : Text) :
    collapseBlanks (gap ++ c :: s) = spaceOf gap ++ c :: collapseBlanks s := by
  cases gap with
  | nil => exact collapseBlanks_cons hc s
  | cons b gap =>
    obtain ⟨hb, hgap⟩ := Text.isBlank_cons.mp hgap
    have hrun : blankRun none b (gap ++ c :: s) = some ⟨gap.length, ()⟩ := by
      simp [blankRun, hb, Text.leadingBlanks_gap hgap hc]
    rw [← collapseBlanks_cons hc, List.cons_append]
    refine (Pattern.replace_cons_of_some (fun _ _ _ => rfl) hrun).trans ?_
    rw [List.drop_left]
    rfl

theorem collapseBlanks_of_isBlank {gap : Text} (hgap : Text.isBlank gap = true) :
    collapseBlanks gap = spaceOf gap := by
  cases gap with
  | nil => rfl
  | cons b gap =>
    obtain ⟨hb, hgap⟩ := Text.isBlank_cons.mp hgap
    have hrun : blankRun none b gap = some ⟨gap.length, ()⟩ := by
      simp [blankRun, hb, Text.leadingBlanks_of_isBlank hgap]
    refine (Pattern.replace_cons_of_some (fun _ _ _ => rfl) hrun).trans ?_
    rw [List.drop_length]
    rfl

theorem trimStart_collapseBlanks (s : Text) :
    Text.trimStart (collapseBlanks s) = collapseBlanks (Text.trimStart s) := by
  induction s using Text.gap_induction with
  | blank gap hgap =>
    rw [collapseBlanks_of_isBlank hgap, Text.trimStart_of_isBlank hgap,
      Text.trimStart_of_isBlank (isBlank_spaceOf gap)]
    rfl
  | char gap c s hgap hc _ =>
    rw [collapseBlanks_gap hgap hc, Text.trimStart_gap (isBlank_spaceOf gap) hc,
      Text.trimStart_gap hgap hc, collapseBlanks_cons hc]

/-- A pattern that matches nowhere in a gap, nor at the character behind it, leaves both. -/
theorem replace_gap {α : Type} {p : Pattern α} {write : α → Text}
    (hp : ∀ before c rest, p before c rest = p none c rest) {gap : Text}
    (hgap : Text.isBlank gap = true) {c : CodePoint} {s : Text}
    (hnone : ∀ gap b rest, gap ++ c :: s = b :: rest → Text.isBlank gap = true →
      p none b rest = none) :
    Pattern.replace p write (gap ++ c :: s) = gap ++ c :: Pattern.replace p write s := by
  have hchar : Pattern.replace p write (c :: s) = c :: Pattern.replace p write s :=
    Pattern.replace_cons_of_none hp (hnone [] c s rfl Text.isBlank_nil)
  rw [← hchar]
  refine Pattern.replace_append_of_none hp fun x b y hsplit => ?_
  rw [hsplit] at hgap
  exact hnone (b :: y) b _ rfl (Text.isBlank_append.mp hgap).2

/-! ## Tight marks -/

theorem spacedMark_gap {b c : CodePoint} {rest gap s : Text} (hs : gap ++ c :: s = b :: rest)
    (hgap : Text.isBlank gap = true) (hc : c.isBlank = false) (before : Option CodePoint) :
    spacedMark before b rest =
      if isTight c then some ⟨gap.length + (Text.leadingBlanks s).length, c⟩ else none := by
  simp only [spacedMark, ← hs, Text.trimStart_gap hgap hc, Text.leadingBlanks_gap hgap hc]

theorem tightenMarks_gap_tight {gap : Text} (hgap : Text.isBlank gap = true) {c : CodePoint}
    (htight : isTight c = true) (s : Text) :
    tightenMarks (gap ++ c :: s) = c :: tightenMarks (Text.trimStart s) := by
  obtain ⟨b, rest, hs⟩ := List.exists_cons_of_ne_nil (l := gap ++ c :: s) (by simp)
  have hmark := spacedMark_gap hs hgap (not_isBlank_of_isTight htight) none
  rw [htight, if_pos rfl] at hmark
  have hdrop : (gap ++ c :: s).drop (gap.length + (Text.leadingBlanks s).length + 1) =
      Text.trimStart s := by
    rw [Nat.add_assoc, List.drop_length_add_append, List.drop_succ_cons]
    exact Text.drop_leadingBlanks s
  refine (Pattern.replace_of_some (fun _ _ _ => rfl) hs hmark).trans ?_
  rw [hdrop]
  rfl

theorem tightenMarks_gap {gap : Text} (hgap : Text.isBlank gap = true) {c : CodePoint}
    (hc : c.isBlank = false) (htight : isTight c = false) (s : Text) :
    tightenMarks (gap ++ c :: s) = gap ++ c :: tightenMarks s := by
  refine replace_gap (fun _ _ _ => rfl) hgap fun gap b rest hs hgap => ?_
  rw [spacedMark_gap hs hgap hc, htight]
  rfl

theorem tightenMarks_of_isBlank {gap : Text} (hgap : Text.isBlank gap = true) :
    tightenMarks gap = gap := by
  refine Pattern.replace_of_not_occursIn (Pattern.occursIn_eq_false_iff.mpr ?_)
  intro x b y hsplit
  rw [hsplit] at hgap
  simp only [spacedMark, Text.trimStart_of_isBlank (Text.isBlank_append.mp hgap).2]

theorem exists_tightenMarks_cons {c : CodePoint} (hc : c.isBlank = false) (s : Text) :
    ∃ rest, tightenMarks (c :: s) = c :: rest := by
  cases htight : isTight c with
  | true => exact ⟨_, tightenMarks_gap_tight Text.isBlank_nil htight s⟩
  | false => exact ⟨_, tightenMarks_gap Text.isBlank_nil hc htight s⟩

/-! ## Idle semicolons -/

theorem idleSemicolon_before (before : Option CodePoint) (c : CodePoint) (rest : Text) :
    idleSemicolon before c rest = idleSemicolon none c rest := by
  unfold idleSemicolon
  split <;> simp_all

theorem dropIdleSemicolons_idle (s : Text) :
    dropIdleSemicolons (.char ';' :: .char '}' :: s) = dropIdleSemicolons (.char '}' :: s) := by
  have hbrace : idleSemicolon none (.char '}') s = none := rfl
  have hidle : idleSemicolon none (.char ';') (.char '}' :: s) = some ⟨1, ()⟩ := rfl
  refine (Pattern.replace_cons_of_some idleSemicolon_before hidle).trans ?_
  exact (Pattern.replace_cons_of_none idleSemicolon_before hbrace).symm

theorem dropIdleSemicolons_cons {c : CodePoint} {s : Text}
    (h : c = .char ';' → s.head? ≠ some (.char '}')) :
    dropIdleSemicolons (c :: s) = c :: dropIdleSemicolons s := by
  refine Pattern.replace_cons_of_none idleSemicolon_before ?_
  rw [idleSemicolon]
  rintro _ rfl rfl
  exact h rfl rfl

/-! ## Important marks -/

theorem importantMark_eq :
    ∃ letters, importantMark = .char '!' :: letters ∧
      ∀ c ∈ letters, c.isBlank = false ∧ c ≠ .char '!' :=
  ⟨Text.ofString "important", by decide, by decide⟩

theorem startsWith_importantMark {c : CodePoint} {s : Text}
    (h : Text.startsWith (c :: s) importantMark = true) : c = .char '!' := by
  obtain ⟨letters, hmark, -⟩ := importantMark_eq
  rw [hmark, Text.startsWith, List.isPrefixOf_cons_cons, Bool.and_eq_true, beq_iff_eq] at h
  exact h.1.symm

theorem spacedImportant_gap {b c : CodePoint} {rest gap s : Text} (hs : gap ++ c :: s = b :: rest)
    (hgap : Text.isBlank gap = true) (hc : c.isBlank = false) (before : Option CodePoint) :
    spacedImportant before b rest =
      if Text.startsWith (c :: s) importantMark then
        some ⟨gap.length + importantMark.length - 1, ()⟩
      else none := by
  simp only [spacedImportant, ← hs, Text.trimStart_gap hgap hc, Text.leadingBlanks_gap hgap hc]

/-- Where no important mark comes next, a gap stays. -/
theorem joinImportant_gap {gap : Text} (hgap : Text.isBlank gap = true) {c : CodePoint}
    (hc : c.isBlank = false) {s : Text} (h : Text.startsWith (c :: s) importantMark = false) :
    joinImportant (gap ++ c :: s) = gap ++ c :: joinImportant s := by
  refine replace_gap (fun _ _ _ => rfl) hgap fun gap b rest hs hgap => ?_
  rw [spacedImportant_gap hs hgap hc, h]
  rfl

theorem joinImportant_letters {letters : Text}
    (h : ∀ c ∈ letters, c.isBlank = false ∧ c ≠ .char '!') (s : Text) :
    joinImportant (letters ++ s) = letters ++ joinImportant s := by
  refine Pattern.replace_append_of_none (fun _ _ _ => rfl) fun x c y hsplit => ?_
  obtain ⟨hc, hne⟩ := h c (by simp [hsplit])
  rw [spacedImportant_gap (List.nil_append _) Text.isBlank_nil hc, if_neg]
  exact fun hmark => hne (startsWith_importantMark hmark)

/-- Before an important mark a gap goes; the mark is written as it stands. -/
theorem joinImportant_gap_mark {gap : Text} (hgap : Text.isBlank gap = true) {c : CodePoint}
    (hc : c.isBlank = false) {s : Text} (h : Text.startsWith (c :: s) importantMark = true) :
    joinImportant (gap ++ c :: s) = c :: joinImportant s := by
  obtain ⟨letters, hmark, hletters⟩ := importantMark_eq
  obtain ⟨rest, hrest⟩ := List.isPrefixOf_iff_prefix.mp h
  obtain ⟨b, behind, hs⟩ := List.exists_cons_of_ne_nil (l := gap ++ c :: s) (by simp)
  have hfound := spacedImportant_gap hs hgap hc none
  have hlen : gap.length + importantMark.length - 1 + 1 = (gap ++ importantMark).length := by
    rw [hmark, List.length_append, List.length_cons]
    omega
  rw [h, if_pos rfl] at hfound
  have hjoin : joinImportant (gap ++ c :: s) = importantMark ++
      joinImportant ((gap ++ c :: s).drop (gap.length + importantMark.length - 1 + 1)) :=
    Pattern.replace_of_some (fun _ _ _ => rfl) hs hfound
  rw [hlen, ← hrest, ← List.append_assoc, List.drop_left] at hjoin
  have hsplit : letters ++ rest = s := by
    rw [hmark] at hrest
    exact (List.cons.inj hrest).2
  have hchar : importantMark = c :: letters := by
    rw [hmark, startsWith_importantMark h]
  calc joinImportant (gap ++ c :: s)
      = importantMark ++ joinImportant rest := by rw [← hrest, ← List.append_assoc]; exact hjoin
    _ = c :: joinImportant s := by
      rw [hchar, ← hsplit, joinImportant_letters hletters]
      rfl

theorem joinImportant_of_isBlank {gap : Text} (hgap : Text.isBlank gap = true) :
    joinImportant gap = gap := by
  refine Pattern.replace_of_not_occursIn (Pattern.occursIn_eq_false_iff.mpr ?_)
  intro x b y hsplit
  rw [hsplit] at hgap
  simp [spacedImportant, Text.trimStart_of_isBlank (Text.isBlank_append.mp hgap).2,
    Text.startsWith, importantMark, Text.ofString]

theorem joinImportant_cons {c : CodePoint} (hc : c.isBlank = false) (s : Text) :
    joinImportant (c :: s) = c :: joinImportant s := by
  cases hmark : Text.startsWith (c :: s) importantMark with
  | true => exact joinImportant_gap_mark Text.isBlank_nil hc hmark
  | false => exact joinImportant_gap Text.isBlank_nil hc hmark

/-- Where a text begins with a blank, so does the joined one, or else with a mark. -/
theorem joinImportant_cons_blank {b : CodePoint} (hb : b.isBlank = true) (s : Text) :
    ∃ c rest, joinImportant (b :: s) = c :: rest ∧ (c.isBlank = true ∨ c = .char '!') := by
  induction s using Text.gap_induction with
  | blank gap hgap =>
    exact ⟨b, gap, joinImportant_of_isBlank (Text.isBlank_cons.mpr ⟨hb, hgap⟩), Or.inl hb⟩
  | char gap c s hgap hc _ =>
    have hgap' := Text.isBlank_cons.mpr ⟨hb, hgap⟩
    rw [← List.cons_append]
    cases hmark : Text.startsWith (c :: s) importantMark with
    | true =>
      exact ⟨c, _, joinImportant_gap_mark hgap' hc hmark, Or.inr (startsWith_importantMark hmark)⟩
    | false => exact ⟨b, _, joinImportant_gap hgap' hc hmark, Or.inl hb⟩

/-- Joining does not change where important marks begin. -/
theorem startsWith_joinImportant (c : CodePoint) (s : Text) :
    Text.startsWith (c :: joinImportant s) importantMark =
      Text.startsWith (c :: s) importantMark := by
  have hprefix : ∀ (letters s : Text), (∀ x ∈ letters, x.isBlank = false ∧ x ≠ .char '!') →
      letters.isPrefixOf (joinImportant s) = letters.isPrefixOf s := by
    intro letters
    induction letters with
    | nil =>
      intro s _
      rw [List.isPrefixOf_nil_left, List.isPrefixOf_nil_left]
    | cons x letters ih =>
      intro s h
      cases s with
      | nil => rfl
      | cons y s =>
        obtain ⟨hx, hne⟩ := h x (by simp)
        cases hy : y.isBlank with
        | false =>
          rw [joinImportant_cons hy, List.isPrefixOf_cons_cons, List.isPrefixOf_cons_cons,
            ih s fun z hz => h z (List.mem_cons_of_mem x hz)]
        | true =>
          obtain ⟨z, rest, hjoin, hz⟩ := joinImportant_cons_blank hy s
          have hxy : x ≠ y := by
            rintro rfl
            rw [hx] at hy
            cases hy
          have hxz : x ≠ z := by
            rintro rfl
            rcases hz with hz | hz
            · rw [hx] at hz
              cases hz
            · exact hne hz
          rw [hjoin, List.isPrefixOf_cons_cons, List.isPrefixOf_cons_cons, beq_false_of_ne hxy,
            beq_false_of_ne hxz]
          rfl
  obtain ⟨letters, hmark, hletters⟩ := importantMark_eq
  rw [hmark, Text.startsWith, Text.startsWith, List.isPrefixOf_cons_cons,
    List.isPrefixOf_cons_cons, hprefix letters s hletters]

/-! ## All passes -/

/-- The compact form with the blanks that may be left at its ends. -/
def packed (s : Text) : Text :=
  joinImportant (dropIdleSemicolons (tightenMarks (collapseBlanks s)))

theorem packed_of_isBlank {gap : Text} (hgap : Text.isBlank gap = true) :
    packed gap = spaceOf gap := by
  have hidle : dropIdleSemicolons (spaceOf gap) = spaceOf gap := by
    cases gap <;> rfl
  rw [packed, collapseBlanks_of_isBlank hgap, tightenMarks_of_isBlank (isBlank_spaceOf gap), hidle,
    joinImportant_of_isBlank (isBlank_spaceOf gap)]

/-- The first two passes at a tight mark. -/
theorem tightened_gap_tight {gap : Text} (hgap : Text.isBlank gap = true) {c : CodePoint}
    (htight : isTight c = true) (s : Text) :
    tightenMarks (collapseBlanks (gap ++ c :: s)) =
      c :: tightenMarks (collapseBlanks (Text.trimStart s)) := by
  rw [collapseBlanks_gap hgap (not_isBlank_of_isTight htight),
    tightenMarks_gap_tight (isBlank_spaceOf gap) htight, trimStart_collapseBlanks]

theorem head?_tightened (s : Text) :
    (tightenMarks (collapseBlanks (Text.trimStart s))).head? = (Text.trimStart s).head? := by
  induction s using Text.gap_induction with
  | blank gap hgap =>
    rw [Text.trimStart_of_isBlank hgap]
    rfl
  | char gap c s hgap hc _ =>
    obtain ⟨rest, hrest⟩ := exists_tightenMarks_cons hc (collapseBlanks s)
    rw [Text.trimStart_gap hgap hc, collapseBlanks_cons hc, hrest]
    rfl

theorem packed_gap_tight {gap : Text} (hgap : Text.isBlank gap = true) {c : CodePoint}
    (htight : isTight c = true) {s : Text} (h : (c == .char ';' && closes s) = false) :
    packed (gap ++ c :: s) = c :: packed (Text.trimStart s) := by
  rw [packed, tightened_gap_tight hgap htight, dropIdleSemicolons_cons, joinImportant_cons
    (not_isBlank_of_isTight htight)]
  · rfl
  · rintro rfl
    rw [head?_tightened]
    simpa [closes] using h

theorem packed_gap_idle {gap : Text} (hgap : Text.isBlank gap = true) {s : Text}
    (h : closes s = true) : packed (gap ++ .char ';' :: s) = packed (Text.trimStart s) := by
  obtain ⟨rest, hrest⟩ : ∃ rest, tightenMarks (collapseBlanks (Text.trimStart s)) =
      .char '}' :: rest := by
    refine List.head?_eq_some_iff.mp ?_
    rw [head?_tightened]
    simpa [closes] using h
  rw [packed, tightened_gap_tight hgap (by decide), hrest, dropIdleSemicolons_idle, ← hrest]
  rfl

/-- A character that is no tight mark keeps its gap, unless an important mark begins with it. -/
theorem packed_gap {gap : Text} (hgap : Text.isBlank gap = true) {c : CodePoint}
    (hc : c.isBlank = false) (htight : isTight c = false) (s : Text) :
    packed (gap ++ c :: s) =
      if Text.startsWith (c :: packed s) importantMark then c :: packed s
      else spaceOf gap ++ c :: packed s := by
  have hne : ∀ x, isTight x = false → x ≠ .char ';' := by
    rintro x hx rfl
    exact absurd hx (by decide)
  have hidle : ∀ v, dropIdleSemicolons (spaceOf gap ++ c :: v) =
      spaceOf gap ++ c :: dropIdleSemicolons v := by
    intro v
    have hcons := dropIdleSemicolons_cons (s := v) fun h => absurd h (hne c htight)
    cases gap with
    | nil => exact hcons
    | cons b gap =>
      refine (dropIdleSemicolons_cons fun h => absurd h (by decide)).trans ?_
      exact congrArg (.char ' ' :: ·) hcons
  have hstart := startsWith_joinImportant c (dropIdleSemicolons (tightenMarks (collapseBlanks s)))
  rw [packed, collapseBlanks_gap hgap hc, tightenMarks_gap (isBlank_spaceOf gap) hc htight, hidle,
    packed, hstart]
  split
  · rename_i hmark
    exact joinImportant_gap_mark (isBlank_spaceOf gap) hc hmark
  · rename_i hmark
    exact joinImportant_gap (isBlank_spaceOf gap) hc (by simpa using hmark)

end TextTidy.Css
