import TextTidy.Proofs.Css.Compact

/-!
# The compact form in one pass

The passes of compaction can be made in one that remembers whether the last character was a tight
mark and whether a gap has been passed since. In this form it is plain where the compact form has
its spaces, that it has none at its ends, and that it is its own compact form unless a semicolon is
idle in it.
-/

namespace TextTidy.Css

/-! ## One pass -/

/-- The compact form of a text, made in one pass, when the last character was a tight mark or there
was none (`after`), and a gap may have been passed since (`gap`). -/
def squeezeFrom : (after gap : Bool) → Text → Text
  | _, _, [] => []
  | after, gap, c :: rest =>
    if c.isBlank then squeezeFrom after true rest
    else if c == .char ';' && closes rest then squeezeFrom true false rest
    else
      let next := c :: squeezeFrom (isTight c) false rest
      if gap && !after && !isTight c && !Text.startsWith next importantMark then
        .char ' ' :: next
      else next

theorem squeezeFrom_blank {b : CodePoint} (hb : b.isBlank = true) (after gap : Bool) (s : Text) :
    squeezeFrom after gap (b :: s) = squeezeFrom after true s := by
  rw [squeezeFrom, if_pos hb]

theorem squeezeFrom_gap {gap : Text} (hgap : Text.isBlank gap = true) (after : Bool) (s : Text) :
    squeezeFrom after false (gap ++ s) = squeezeFrom after (!gap.isEmpty) s := by
  have htrue : ∀ gap, Text.isBlank gap = true →
      squeezeFrom after true (gap ++ s) = squeezeFrom after true s := by
    intro gap hgap
    induction gap with
    | nil => rfl
    | cons b gap ih =>
      obtain ⟨hb, hgap⟩ := Text.isBlank_cons.mp hgap
      rw [List.cons_append, squeezeFrom_blank hb, ih hgap]
  cases gap with
  | nil => rfl
  | cons b gap =>
    obtain ⟨hb, hgap⟩ := Text.isBlank_cons.mp hgap
    rw [List.cons_append, squeezeFrom_blank hb, htrue gap hgap]
    rfl

theorem squeezeFrom_idle {s : Text} (h : closes s = true) (after gap : Bool) :
    squeezeFrom after gap (.char ';' :: s) = squeezeFrom true false s := by
  have hblank : (CodePoint.char ';').isBlank = false := by decide
  rw [squeezeFrom, hblank, h]
  rfl

theorem squeezeFrom_tight {c : CodePoint} (htight : isTight c = true) {s : Text}
    (h : (c == .char ';' && closes s) = false) (after gap : Bool) :
    squeezeFrom after gap (c :: s) = c :: squeezeFrom true false s := by
  rw [squeezeFrom, not_isBlank_of_isTight htight, h, htight]
  simp

theorem squeezeFrom_char {c : CodePoint} (hc : c.isBlank = false) (htight : isTight c = false)
    (after gap : Bool) (s : Text) :
    squeezeFrom after gap (c :: s) =
      if gap && !after && !Text.startsWith (c :: squeezeFrom false false s) importantMark then
        .char ' ' :: c :: squeezeFrom false false s
      else c :: squeezeFrom false false s := by
  have hne : (c == .char ';') = false := by
    rw [beq_eq_false_iff_ne]
    rintro rfl
    exact absurd htight (by decide)
  rw [squeezeFrom, hc, hne, htight]
  simp

/-- What is behind a run is squeezed in a state that only depends on the run. -/
theorem squeezeFrom_run {u v run : Text} (hrun : IsRun run)
    (h : ∀ after gap, squeezeFrom after gap u = squeezeFrom after gap v) (after gap : Bool) :
    squeezeFrom after gap (run ++ u) = squeezeFrom after gap (run ++ v) := by
  induction run generalizing after gap with
  | nil => exact h after gap
  | cons c run ih =>
    obtain ⟨hc, hrun⟩ := isRun_cons.mp hrun
    have hne : (c == .char ';') = false := by
      rw [beq_eq_false_iff_ne]
      rintro rfl
      exact absurd hc (by decide)
    simp only [List.cons_append, squeezeFrom, hne, Bool.false_and, Bool.false_eq_true, if_false,
      ih hrun]

/-- Blanks at its end do not make an important mark of a text. -/
theorem startsWith_append_blanks {tail : Text} (htail : Text.isBlank tail = true) (s : Text) :
    Text.startsWith (s ++ tail) importantMark = Text.startsWith s importantMark := by
  have hprefix : ∀ (letters s : Text), (∀ c ∈ letters, c.isBlank = false) →
      letters.isPrefixOf (s ++ tail) = letters.isPrefixOf s := by
    intro letters
    induction letters with
    | nil =>
      intro s _
      rw [List.isPrefixOf_nil_left, List.isPrefixOf_nil_left]
    | cons x letters ih =>
      intro s h
      cases s with
      | nil =>
        cases tail with
        | nil => rfl
        | cons b tail =>
          have hne : x ≠ b := by
            rintro rfl
            have := h x (by simp)
            rw [(Text.isBlank_cons.mp htail).1] at this
            cases this
          rw [List.nil_append, List.isPrefixOf_cons_cons, beq_false_of_ne hne]
          rfl
      | cons y s =>
        rw [List.cons_append, List.isPrefixOf_cons_cons, List.isPrefixOf_cons_cons,
          ih s fun z hz => h z (List.mem_cons_of_mem x hz)]
  exact hprefix importantMark s (by decide)

theorem packed_cons {c : CodePoint} (hc : c.isBlank = false) (htight : isTight c = false)
    (s : Text) : packed (c :: s) = c :: packed s := by
  have h := packed_gap Text.isBlank_nil hc htight s
  rw [List.nil_append] at h
  rw [h]
  split <;> rfl

/-- The passes together do what the one pass does, blanks at the end aside. -/
theorem packed_spec (s : Text) :
    (∃ tail, Text.isBlank tail = true ∧ packed s = squeezeFrom false false s ++ tail) ∧
    ∃ tail, Text.isBlank tail = true ∧
      packed (Text.trimStart s) = squeezeFrom true false s ++ tail := by
  induction s using Text.gap_induction with
  | blank gap hgap =>
    have hnil : ∀ after, squeezeFrom after false gap = [] := by
      intro after
      have h := squeezeFrom_gap hgap after []
      rwa [List.append_nil] at h
    rw [hnil, hnil, packed_of_isBlank hgap, Text.trimStart_of_isBlank hgap]
    exact ⟨⟨_, isBlank_spaceOf gap, rfl⟩, ⟨[], rfl, rfl⟩⟩
  | char gap c s hgap hc ih =>
    obtain ⟨⟨tail, htail, hpacked⟩, ⟨tail', htail', hpacked'⟩⟩ := ih
    rw [squeezeFrom_gap hgap, squeezeFrom_gap hgap, Text.trimStart_gap hgap hc]
    cases htight : isTight c with
    | true =>
      cases hidle : (c == .char ';' && closes s) with
      | true =>
        obtain ⟨hsemi, hcloses⟩ := Bool.and_eq_true_iff.mp hidle
        obtain rfl := eq_of_beq hsemi
        rw [squeezeFrom_idle hcloses, squeezeFrom_idle hcloses, packed_gap_idle hgap hcloses,
          ← List.nil_append (.char ';' :: s), packed_gap_idle Text.isBlank_nil hcloses]
        exact ⟨⟨tail', htail', hpacked'⟩, ⟨tail', htail', hpacked'⟩⟩
      | false =>
        rw [squeezeFrom_tight htight hidle, squeezeFrom_tight htight hidle,
          packed_gap_tight hgap htight hidle, ← List.nil_append (c :: s),
          packed_gap_tight Text.isBlank_nil htight hidle, hpacked']
        exact ⟨⟨tail', htail', rfl⟩, ⟨tail', htail', rfl⟩⟩
    | false =>
      have hstart : Text.startsWith (c :: packed s) importantMark =
          Text.startsWith (c :: squeezeFrom false false s) importantMark := by
        rw [hpacked, ← List.cons_append, startsWith_append_blanks htail]
      rw [squeezeFrom_char hc htight, squeezeFrom_char hc htight, packed_gap hgap hc htight,
        packed_cons hc htight, hstart, hpacked]
      refine ⟨⟨tail, htail, ?_⟩, ⟨tail, htail, by simp⟩⟩
      cases gap with
      | nil => cases Text.startsWith (c :: squeezeFrom false false s) importantMark <;> rfl
      | cons b gap => cases Text.startsWith (c :: squeezeFrom false false s) importantMark <;> rfl

theorem trimStart_packed (s : Text) : Text.trimStart (packed s) = packed (Text.trimStart s) := by
  induction s using Text.gap_induction with
  | blank gap hgap =>
    rw [packed_of_isBlank hgap, Text.trimStart_of_isBlank hgap,
      Text.trimStart_of_isBlank (isBlank_spaceOf gap)]
    rfl
  | char gap c s hgap hc _ =>
    rw [Text.trimStart_gap hgap hc]
    cases htight : isTight c with
    | true =>
      cases hidle : (c == .char ';' && closes s) with
      | true =>
        obtain ⟨hsemi, hcloses⟩ := Bool.and_eq_true_iff.mp hidle
        obtain rfl := eq_of_beq hsemi
        obtain ⟨rest, hrest⟩ : ∃ rest, Text.trimStart s = .char '}' :: rest := by
          refine List.head?_eq_some_iff.mp ?_
          simpa [closes] using hcloses
        rw [packed_gap_idle hgap hcloses, ← List.nil_append (.char ';' :: s),
          packed_gap_idle Text.isBlank_nil hcloses, hrest, ← List.nil_append (.char '}' :: rest),
          packed_gap_tight Text.isBlank_nil (by decide) (by rfl)]
        exact Text.trimStart_cons (by decide) _
      | false =>
        rw [packed_gap_tight hgap htight hidle, ← List.nil_append (c :: s),
          packed_gap_tight Text.isBlank_nil htight hidle]
        exact Text.trimStart_cons hc _
    | false =>
      rw [packed_gap hgap hc htight, packed_cons hc htight]
      split
      · exact Text.trimStart_cons hc _
      · exact Text.trimStart_gap (isBlank_spaceOf gap) hc _

/-! ## The ends of the compact form -/

/-- Before a closing brace nothing is left of a gap. -/
theorem squeezeFrom_closing {gap : Text} (hgap : Text.isBlank gap = true) (after : Bool)
    (rest : Text) :
    squeezeFrom after false (gap ++ .char '}' :: rest) =
      .char '}' :: squeezeFrom true false rest := by
  rw [squeezeFrom_gap hgap]
  exact squeezeFrom_tight (by decide) (by rfl) after _

/-- What the one pass can do at a character. -/
theorem squeezeFrom_cases (after gap : Bool) (c : CodePoint) (s : Text) :
    (c.isBlank = true ∧ squeezeFrom after gap (c :: s) = squeezeFrom after true s) ∨
    (c = .char ';' ∧ closes s = true ∧
      squeezeFrom after gap (c :: s) = squeezeFrom true false s) ∨
    (c.isBlank = false ∧ (c == .char ';' && closes s) = false ∧
      squeezeFrom after gap (c :: s) = c :: squeezeFrom (isTight c) false s) ∨
    (gap = true ∧ after = false ∧ c.isBlank = false ∧ isTight c = false ∧
      Text.startsWith (c :: squeezeFrom false false s) importantMark = false ∧
      squeezeFrom after gap (c :: s) = .char ' ' :: c :: squeezeFrom false false s) := by
  cases hc : c.isBlank with
  | true => exact Or.inl ⟨rfl, squeezeFrom_blank hc after gap s⟩
  | false =>
    cases hidle : (c == .char ';' && closes s) with
    | true =>
      obtain ⟨hsemi, hcloses⟩ := Bool.and_eq_true_iff.mp hidle
      obtain rfl := eq_of_beq hsemi
      exact Or.inr (Or.inl ⟨rfl, hcloses, squeezeFrom_idle hcloses after gap⟩)
    | false =>
      cases htight : isTight c with
      | true =>
        exact Or.inr (Or.inr (Or.inl ⟨rfl, rfl, squeezeFrom_tight htight hidle after gap⟩))
      | false =>
        have hchar := squeezeFrom_char hc htight after gap s
        split at hchar
        · rename_i hspace
          simp only [Bool.and_eq_true, Bool.not_eq_true'] at hspace
          exact Or.inr (Or.inr (Or.inr
            ⟨hspace.1.1, hspace.1.2, rfl, rfl, hspace.2, hchar⟩))
        · exact Or.inr (Or.inr (Or.inl ⟨rfl, rfl, hchar⟩))

/-- Where nothing or a tight mark has been before, no blank comes first. -/
theorem squeezeFrom_head {s : Text} {gap : Bool} {c : CodePoint}
    (h : (squeezeFrom true gap s).head? = some c) : c.isBlank = false := by
  induction s generalizing gap with
  | nil => cases h
  | cons x s ih =>
    rcases squeezeFrom_cases true gap x s with ⟨-, hs⟩ | ⟨-, -, hs⟩ | ⟨hx, -, hs⟩ | ⟨-, hafter, -⟩
    · rw [hs] at h
      exact ih h
    · rw [hs] at h
      exact ih h
    · rw [hs] at h
      obtain rfl : x = c := Option.some.inj h
      exact hx
    · cases hafter

theorem squeezeFrom_getLast {s : Text} {after gap : Bool} {c : CodePoint}
    (h : (squeezeFrom after gap s).getLast? = some c) : c.isBlank = false := by
  have hcons : ∀ {x : CodePoint} {q : Text}, x.isBlank = false → (x :: q).getLast? = some c →
      q.getLast? = some c ∨ c.isBlank = false := by
    intro x q hx hlast
    rw [List.getLast?_cons] at hlast
    cases hq : q.getLast? with
    | none =>
      rw [hq] at hlast
      obtain rfl : x = c := Option.some.inj hlast
      exact Or.inr hx
    | some y =>
      rw [hq] at hlast
      exact Or.inl hlast
  induction s generalizing after gap with
  | nil => cases h
  | cons x s ih =>
    rcases squeezeFrom_cases after gap x s with ⟨-, hs⟩ | ⟨-, -, hs⟩ | ⟨hx, -, hs⟩ |
      ⟨-, -, hx, -, -, hs⟩
    · rw [hs] at h
      exact ih h
    · rw [hs] at h
      exact ih h
    · rw [hs] at h
      exact (hcons hx h).elim ih id
    · rw [hs, List.getLast?_cons_cons] at h
      exact (hcons hx h).elim ih id

/-- The compact form is made in one pass. -/
theorem compact_eq_squeezeFrom (s : Text) : compact s = squeezeFrom true false s := by
  obtain ⟨-, tail, htail, hpacked⟩ := packed_spec s
  have hend : Text.trimEnd (squeezeFrom true false s) = squeezeFrom true false s := by
    cases hs : (squeezeFrom true false s).getLast? with
    | none => rw [List.getLast?_eq_none_iff.mp hs]; rfl
    | some c =>
      obtain ⟨init, hinit⟩ := List.getLast?_eq_some_iff.mp hs
      rw [hinit, Text.trimEnd_concat (squeezeFrom_getLast hs)]
  calc compact s = Text.trimEnd (Text.trimStart (packed s)) := rfl
    _ = Text.trimEnd (squeezeFrom true false s ++ tail) := by rw [trimStart_packed, hpacked]
    _ = squeezeFrom true false s := by rw [Text.trimEnd_append htail, hend]

/-! ## Compact texts -/

/-- A compact text without idle semicolons is its own compact form. -/
theorem squeezeFrom_idempotent {s : Text} {after gap : Bool}
    (h : ∀ x y, squeezeFrom after gap s ≠ x ++ .char ';' :: .char '}' :: y) :
    squeezeFrom after false (squeezeFrom after gap s) = squeezeFrom after gap s := by
  induction s generalizing after gap with
  | nil => rfl
  | cons c s ih =>
    rcases squeezeFrom_cases after gap c s with ⟨-, hs⟩ | ⟨-, hcloses, hs⟩ | ⟨hc, -, hs⟩ |
      ⟨-, rfl, hc, htight, hmark, hs⟩
    · rw [hs] at h ⊢
      exact ih h
    · rw [hs] at h ⊢
      have hrest := ih h
      obtain ⟨blanks, rest, rfl, hblanks⟩ := closes_iff.mp hcloses
      rw [squeezeFrom_closing hblanks] at hrest ⊢
      have hbrace := squeezeFrom_closing Text.isBlank_nil after (squeezeFrom true false rest)
      have hbrace' := squeezeFrom_closing Text.isBlank_nil true (squeezeFrom true false rest)
      rw [List.nil_append] at hbrace hbrace'
      rw [hbrace, ← hbrace', hrest]
    · rw [hs] at h ⊢
      have hrest : squeezeFrom (isTight c) false (squeezeFrom (isTight c) false s) =
          squeezeFrom (isTight c) false s :=
        ih fun x y hq => h (c :: x) y (by rw [hq]; rfl)
      rcases squeezeFrom_cases after false c (squeezeFrom (isTight c) false s) with ⟨hblank, -⟩ |
        ⟨rfl, hcloses, -⟩ | ⟨-, -, hq⟩ | ⟨hgap, -⟩
      · rw [hc] at hblank
        cases hblank
      · -- a closing brace behind the semicolon would come at once
        obtain ⟨blanks, rest, hq, hblanks⟩ := closes_iff.mp hcloses
        cases blanks with
        | nil => exact absurd (congrArg (CodePoint.char ';' :: ·) hq) (h [] rest)
        | cons b blanks =>
          have hb := squeezeFrom_head (congrArg List.head? hq)
          rw [(Text.isBlank_cons.mp hblanks).1] at hb
          cases hb
      · rw [hq, hrest]
      · cases hgap
    · rw [hs] at h ⊢
      have hrest : squeezeFrom false false (squeezeFrom false false s) =
          squeezeFrom false false s :=
        ih fun x y hq => h (.char ' ' :: c :: x) y (by rw [hq]; rfl)
      rw [squeezeFrom_blank (by decide), squeezeFrom_char hc htight, hrest, hmark]
      rfl

theorem compact_idempotent {s : Text}
    (h : Text.contains (compact s) (Text.ofString ";\x7d") = false) :
    compact (compact s) = compact s := by
  rw [compact_eq_squeezeFrom] at h
  rw [compact_eq_squeezeFrom, compact_eq_squeezeFrom]
  refine squeezeFrom_idempotent fun x y hs => ?_
  have hfound : Text.contains (x ++ Text.ofString ";\x7d" ++ y) (Text.ofString ";\x7d") = true :=
    Text.contains_append _ x y
  have hsplit : x ++ Text.ofString ";\x7d" ++ y = x ++ .char ';' :: .char '}' :: y :=
    List.append_assoc _ _ _
  rw [hsplit, ← hs, h] at hfound
  cases hfound

end TextTidy.Css
