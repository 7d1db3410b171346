import TextTidy.Proofs.Css.Literal

/-!
# Texts that are compact already

Compaction leaves a text as it is exactly if its blanks are single spaces, none of them next to a
tight mark or before an important mark, and no semicolon is right before a closing brace.
-/

namespace TextTidy.Css

/-! ## Settled texts -/

/-- Whether a text begins with a blank. -/
def beginsBlank (s : Text) : Bool := s.head?.any CodePoint.isBlank

/-- Whether compaction keeps a character before the text behind it, and writes nothing new there. -/
def settledAt (c : CodePoint) (rest : Text) : Bool :=
  if c.isBlank then
    c == .char ' ' && !beginsBlank rest && !rest.head?.any isTight &&
      !Text.startsWith rest importantMark
  else if isTight c then
    !beginsBlank rest && !(c == .char ';' && rest.head? == some (.char '}'))
  else true

/-- Whether all blanks of a text are single spaces away from tight marks and not before an important
mark, and none of its semicolons is right before a closing brace. -/
def settled : Text → Bool
  | [] => true
  | c :: rest => settledAt c rest && settled rest

theorem settled_cons_char {c : CodePoint} (hc : c.isBlank = false) (htight : isTight c = false)
    (s : Text) : settled (c :: s) = settled s := by
  simp [settled, settledAt, hc, htight]

theorem settled_cons_tight {c : CodePoint} (htight : isTight c = true) (s : Text) :
    settled (c :: s) =
      (!beginsBlank s && !(c == .char ';' && s.head? == some (.char '}')) && settled s) := by
  simp [settled, settledAt, not_isBlank_of_isTight htight, htight]

theorem settled_cons_blank {b : CodePoint} (hb : b.isBlank = true) (s : Text) :
    settled (b :: s) =
      (b == .char ' ' && !beginsBlank s && !s.head?.any isTight &&
        !Text.startsWith s importantMark && settled s) := by
  simp [settled, settledAt, hb]

/-- A semicolon that compaction drops is not settled. -/
theorem settled_idle {s : Text} (h : closes s = true) : settled (.char ';' :: s) = false := by
  rw [settled_cons_tight (by decide)]
  obtain ⟨gap, rest, rfl, hgap⟩ := closes_iff.mp h
  cases gap with
  | nil => rfl
  | cons b gap => simp [beginsBlank, (Text.isBlank_cons.mp hgap).1]

/-- A semicolon that does not stand before a closing brace, with a gap or without, does not stand
right before one. -/
theorem not_idle_at_head {c : CodePoint} {s : Text} (h : (c == .char ';' && closes s) = false) :
    (c == .char ';' && s.head? == some (.char '}')) = false := by
  by_cases hhead : s.head? = some (.char '}')
  · obtain ⟨rest, rfl⟩ := List.head?_eq_some_iff.mp hhead
    rw [closes_cons, Bool.and_true] at h
    rw [h, Bool.false_and]
  · rw [beq_false_of_ne hhead, Bool.and_false]

/-! ## What the one pass keeps -/

theorem length_squeezeFrom (after gap : Bool) (s : Text) :
    (squeezeFrom after gap s).length ≤ s.length + gap.toNat := by
  induction s generalizing after gap with
  | nil => exact Nat.zero_le _
  | cons c s ih =>
    rcases squeezeFrom_cases after gap c s with ⟨-, h⟩ | ⟨-, -, h⟩ | ⟨-, -, h⟩ |
      ⟨rfl, -, -, -, -, h⟩
    · have := ih after true
      rw [h, List.length_cons]
      simp only [Bool.toNat_true] at this
      omega
    · have := ih true false
      rw [h, List.length_cons]
      simp only [Bool.toNat_false] at this
      omega
    · have := ih (isTight c) false
      rw [h, List.length_cons, List.length_cons]
      simp only [Bool.toNat_false] at this
      omega
    · have := ih false false
      rw [h, List.length_cons, List.length_cons, List.length_cons]
      simp only [Bool.toNat_false, Bool.toNat_true] at this ⊢
      omega

/-- Before a tight mark a gap leaves nothing. -/
theorem length_squeezeFrom_tight {c : CodePoint} (htight : isTight c = true) (after gap : Bool)
    (s : Text) : (squeezeFrom after gap (c :: s)).length ≤ s.length + 1 := by
  have hlen := length_squeezeFrom true false s
  rw [Bool.toNat_false, Nat.add_zero] at hlen
  cases hidle : (c == .char ';' && closes s) with
  | true =>
    obtain ⟨hsemi, hcloses⟩ := Bool.and_eq_true_iff.mp hidle
    obtain rfl := eq_of_beq hsemi
    rw [squeezeFrom_idle hcloses]
    exact Nat.le_succ_of_le hlen
  | false =>
    rw [squeezeFrom_tight htight hidle]
    exact Nat.succ_le_succ hlen

/-- A blank is kept between two characters that are no tight marks. -/
theorem squeezeFrom_blank_eq_self_iff {b : CodePoint} (hb : b.isBlank = true) {s : Text}
    (hne : s ≠ []) (hs : squeezeFrom false false s = s ↔ settled s = true) :
    squeezeFrom false false (b :: s) = b :: s ↔ settled (b :: s) = true := by
  have hlost : ∀ {t : Text}, t.length ≤ s.length → t ≠ b :: s := by
    rintro t hlen rfl
    exact Nat.not_succ_le_self _ hlen
  rw [squeezeFrom_blank hb, settled_cons_blank hb]
  cases s with
  | nil => exact absurd rfl hne
  | cons c s =>
    cases hc : c.isBlank with
    | true =>
      have hlen := length_squeezeFrom false true s
      rw [squeezeFrom_blank hc]
      exact iff_of_false (hlost (by simpa using hlen)) (by simp [beginsBlank, hc])
    | false =>
      cases htight : isTight c with
      | true =>
        exact iff_of_false (hlost (length_squeezeFrom_tight htight false true s)) (by simp [htight])
      | false =>
        have hkept : squeezeFrom false false (c :: s) = c :: squeezeFrom false false s :=
          squeezeFrom_char hc htight false false s
        rw [hkept, List.cons.injEq, settled_cons_char hc htight] at hs
        rw [squeezeFrom_char hc htight, settled_cons_char hc htight]
        by_cases hsame : squeezeFrom false false s = s
        · rw [hsame, (hs.mp ⟨rfl, hsame⟩)]
          cases hmark : Text.startsWith (c :: s) importantMark with
          | true =>
            have hshort : c :: s ≠ b :: c :: s := hlost (Nat.le_refl _)
            simp [hshort]
          | false =>
            have hspace : CodePoint.char ' ' = b ↔ (b == .char ' ') = true := by
              rw [beq_iff_eq, eq_comm]
            simp [beginsBlank, hc, htight, hspace]
        · have hunsettled : settled s = false := by
            rw [← Bool.not_eq_true]
            intro h
            exact hsame (hs.mpr h).2
          rw [hunsettled, Bool.and_false]
          refine iff_of_false (fun h => ?_) Bool.false_ne_true
          split at h
          · exact hsame (List.cons.inj (List.cons.inj h).2).2
          · have hlen := length_squeezeFrom false false s
            exact hlost (by simpa using hlen) h

/-- The one pass keeps a text that does not end in a blank exactly if the text is settled and, where
it comes behind a tight mark, does not begin with a blank. -/
theorem squeezeFrom_eq_self_iff {s : Text} (hlast : ∀ c ∈ s.getLast?, c.isBlank = false)
    (after : Bool) :
    squeezeFrom after false s = s ↔ settled s = true ∧ (after = true → beginsBlank s = false) := by
  induction s generalizing after with
  | nil => simp [squeezeFrom, settled, beginsBlank]
  | cons c s ih =>
    have hend : ∀ c ∈ s.getLast?, c.isBlank = false := by
      intro x hx
      refine hlast x ?_
      rw [List.getLast?_cons, Option.mem_def.mp hx]
      rfl
    cases hc : c.isBlank with
    | true =>
      have hne : s ≠ [] := by
        rintro rfl
        have := hlast c rfl
        rw [hc] at this
        cases this
      cases after with
      | true =>
        refine iff_of_false (fun h => ?_) (fun h => ?_)
        · have hhead := squeezeFrom_head (congrArg List.head? h)
          rw [hc] at hhead
          cases hhead
        · have hbegins := h.2 rfl
          rw [beginsBlank, List.head?_cons, Option.any_some, hc] at hbegins
          cases hbegins
      | false =>
        rw [squeezeFrom_blank_eq_self_iff hc hne (by simpa using ih hend false)]
        simp
    | false =>
      have hbegins : beginsBlank (c :: s) = false := hc
      rw [hbegins]
      simp only [implies_true, and_true]
      cases htight : isTight c with
      | true =>
        cases hidle : (c == .char ';' && closes s) with
        | true =>
          obtain ⟨hsemi, hcloses⟩ := Bool.and_eq_true_iff.mp hidle
          obtain rfl := eq_of_beq hsemi
          have hlen := length_squeezeFrom true false s
          rw [squeezeFrom_idle hcloses, settled_idle hcloses]
          refine iff_of_false (fun h => ?_) Bool.false_ne_true
          rw [h, List.length_cons, Bool.toNat_false] at hlen
          omega
        | false =>
          rw [squeezeFrom_tight htight hidle, settled_cons_tight htight, List.cons.injEq,
            ih hend true, not_idle_at_head hidle]
          simp [and_comm]
      | false =>
        have hkept : squeezeFrom after false (c :: s) = c :: squeezeFrom false false s :=
          squeezeFrom_char hc htight after false s
        rw [hkept, settled_cons_char hc htight, List.cons.injEq, ih hend false]
        simp

/-! ## Literals -/

/-- In a literal the text between the quotes is made compact on its own. -/
theorem compact_inQuotes {body : Text} (hbody : Markless body) :
    compact (inQuotes body) = inQuotes (packed body) := by
  have hpacked : packed (inQuotes body) = inQuotes (packed body) := by
    have hback := packed_keepsQuotes.cut body (.char '"') [] hbody (by decide)
    rw [inQuotes, packed_cons (by decide) (by decide), hback, packed_of_isBlank Text.isBlank_nil]
    rfl
  have htrim : compact (inQuotes body) = Text.trim (packed (inQuotes body)) := rfl
  rw [htrim, hpacked, Text.trim, inQuotes, Text.trimStart_cons (by decide), ← List.cons_append,
    Text.trimEnd_concat (by decide)]

/-- Compaction keeps the text of a literal exactly if the literal is settled. -/
theorem packed_eq_self_iff {body : Text} (hbody : Markless body) :
    packed body = body ↔ settled (inQuotes body) = true := by
  have hlast : ∀ c ∈ (inQuotes body).getLast?, c.isBlank = false := by
    intro c hc
    rw [inQuotes, ← List.cons_append, List.getLast?_concat] at hc
    obtain rfl := Option.some.inj hc
    decide
  have hkept : packed body = body ↔ inQuotes (packed body) = inQuotes body := by
    simp [inQuotes]
  rw [hkept, ← compact_inQuotes hbody, compact_eq_squeezeFrom, squeezeFrom_eq_self_iff hlast]
  exact and_iff_left fun _ => rfl

end TextTidy.Css
