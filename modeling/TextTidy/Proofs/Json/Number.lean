import TextTidy.Proofs.Json.Grammar

/-!
# Reading numbers

The reader takes a number from the start of a text part by part, each as long as it can be. What it
takes is a number of the grammar; a number of the grammar is taken whole when nothing behind it
could belong to it.
-/

namespace TextTidy.Json

open Grammar

/-! ## Digits -/

/-- No digit comes next. -/
def NoDigit (s : Text) : Prop := ∀ c, s.head? = some c → isDigit c = false

theorem noDigit_cons {c : CodePoint} {s : Text} : NoDigit (c :: s) ↔ isDigit c = false := by
  constructor
  · intro h
    exact h c rfl
  · intro h d hd
    cases hd
    exact h

theorem isDigit_of_mem {digits : List Digit} {c : CodePoint} (hc : c ∈ digitsText digits) :
    isDigit c = true := by
  obtain ⟨d, -, rfl⟩ := List.mem_map.mp hc
  exact d.property

theorem takeWhile_digits (digits : List Digit) {rest : Text} (h : NoDigit rest) :
    (digitsText digits ++ rest).takeWhile isDigit = digitsText digits := by
  rw [List.takeWhile_append_of_pos fun c hc => isDigit_of_mem hc]
  cases rest with
  | nil => simp
  | cons c rest => simp [noDigit_cons.mp h]

theorem leadingDigits_digits (digits : List Digit) {rest : Text} (h : NoDigit rest) :
    leadingDigits (digitsText digits ++ rest) = digitValues digits := by
  rw [leadingDigits, takeWhile_digits digits h, digitsText, digitValues, List.map_map]
  rfl

theorem behindDigits_append (digits : List Digit) (s : Text) :
    behindDigits (digitsText digits ++ s) = behindDigits s :=
  List.dropWhile_append_of_pos fun _ hc => isDigit_of_mem hc

theorem behindDigits_of_noDigit {s : Text} (h : NoDigit s) : behindDigits s = s := by
  cases s with
  | nil => rfl
  | cons c s => simp [behindDigits, noDigit_cons.mp h]

theorem leadingDigits_some (digits : Digits) (s : Text) :
    (leadingDigits (digitsText digits.toList ++ s)).isEmpty = false := by
  obtain ⟨⟨first, hfirst⟩, others⟩ := digits
  have htake : (digitsText (Digits.toList ⟨⟨first, hfirst⟩, others⟩) ++ s).takeWhile isDigit =
      .char first :: (digitsText others ++ s).takeWhile isDigit :=
    List.takeWhile_cons_of_pos (p := isDigit) hfirst
  simp [leadingDigits, htake]

/-- A text is its leading digits and what stands behind them. -/
theorem exists_digits (s : Text) :
    ∃ digits : List Digit, s = digitsText digits ++ behindDigits s ∧
      leadingDigits s = digitValues digits ∧ NoDigit (behindDigits s) := by
  induction s with
  | nil => exact ⟨[], rfl, rfl, by simp [NoDigit, behindDigits]⟩
  | cons c s ih =>
    cases hc : isDigit c with
    | false =>
      have hbehind : behindDigits (c :: s) = c :: s := by simp [behindDigits, hc]
      refine ⟨[], by rw [hbehind]; rfl, by simp [leadingDigits, hc, digitValues], ?_⟩
      rw [hbehind]
      exact noDigit_cons.mpr hc
    | true =>
      obtain ⟨digits, hs, hvalues, hnext⟩ := ih
      cases c with
      | surrogate index => cases hc
      | char c =>
        have hbehind : behindDigits (.char c :: s) = behindDigits s := by simp [behindDigits, hc]
        refine ⟨⟨c, hc⟩ :: digits, ?_, ?_, by rwa [hbehind]⟩
        · rw [hbehind]
          show CodePoint.char c :: s = CodePoint.char c :: (digitsText digits ++ behindDigits s)
          rw [← hs]
        · have hlead : leadingDigits (.char c :: s) = (c.toNat - '0'.toNat) :: leadingDigits s := by
            simp [leadingDigits, hc, CodePoint.value]
          rw [hlead, hvalues]
          rfl

theorem digitValues_isEmpty (digits : List Digit) :
    (digitValues digits).isEmpty = digits.isEmpty := by
  cases digits <;> rfl

theorem Grammar.Digits.values_isEmpty (d : Digits) : (digitValues d.toList).isEmpty = false := by
  rw [digitValues_isEmpty]
  rfl

/-- Leading digits that are there are one digit or more. -/
theorem exists_some_digits {s : Text} (h : (leadingDigits s).isEmpty = false) :
    ∃ d : Digits, s = digitsText d.toList ++ behindDigits s ∧
      leadingDigits s = digitValues d.toList := by
  obtain ⟨digits, hs, hvalues, -⟩ := exists_digits s
  rw [hvalues, digitValues_isEmpty] at h
  cases digits with
  | nil => cases h
  | cons first others => exact ⟨⟨first, others⟩, hs, hvalues⟩

/-! ## The parts of a number -/

theorem wholePart?_other (first : Digit) (nonzero : first.val ≠ '0') (others : List Digit)
    (s : Text) :
    wholePart? (digitsText (first :: others) ++ s) =
      some (leadingDigits (digitsText (first :: others) ++ s), behindDigits s) := by
  have hsome := leadingDigits_some ⟨first, others⟩ s
  rw [Digits.toList] at hsome
  unfold wholePart?
  split
  · rename_i rest hzero
    injection hzero with hfirst
    injection hfirst with hfirst
    exact absurd hfirst nonzero
  · rw [hsome, behindDigits_append]
    rfl

theorem wholePart?_whole (whole : Whole) {rest : Text} (h : NoDigit rest) :
    wholePart? (digitsText whole.toList ++ rest) = some (digitValues whole.toList, rest) := by
  cases whole with
  | zero => rfl
  | other first nonzero others =>
    show wholePart? (digitsText (first :: others) ++ rest) = _
    rw [wholePart?_other first nonzero, leadingDigits_digits _ h, behindDigits_of_noDigit h]
    rfl

theorem exists_whole {s left : Text} {values : List Nat} (h : wholePart? s = some (values, left)) :
    ∃ whole : Whole, s = digitsText whole.toList ++ left ∧ values = digitValues whole.toList := by
  unfold wholePart? at h
  split at h
  · cases h
    exact ⟨.zero, rfl, rfl⟩
  · rename_i hzero
    split at h
    · cases h
    · rename_i hempty
      cases h
      obtain ⟨⟨first, others⟩, hs, hvalues⟩ := exists_some_digits (by simpa using hempty)
      have hfirst : first.val ≠ '0' := by
        intro hfirst
        refine hzero (digitsText others ++ behindDigits s) (hs.trans ?_)
        rw [← hfirst]
        rfl
      exact ⟨.other first hfirst others, hs, hvalues⟩

/-- What stands behind a fraction that is taken whole. -/
def NoFraction (s : Text) : Prop := NoDigit s ∧ s.head? ≠ some (.char '.')

theorem fractionPart_fraction (fraction : Option Digits) {rest : Text} (h : NoFraction rest) :
    fractionPart (fractionText fraction ++ rest) =
      (digitValues (fractionDigits fraction), rest) := by
  cases fraction with
  | none =>
    show fractionPart rest = ([], rest)
    unfold fractionPart
    split
    · exact absurd rfl h.2
    · rfl
  | some digits =>
    show fractionPart (.char '.' :: (digitsText digits.toList ++ rest)) =
      (digitValues digits.toList, rest)
    rw [fractionPart, leadingDigits_digits _ h.1, behindDigits_append, behindDigits_of_noDigit h.1,
      digits.values_isEmpty]
    rfl

theorem exists_fraction (s : Text) :
    ∃ fraction : Option Digits, s = fractionText fraction ++ (fractionPart s).2 ∧
      (fractionPart s).1 = digitValues (fractionDigits fraction) := by
  unfold fractionPart
  split
  · rename_i rest
    split
    · exact ⟨none, rfl, rfl⟩
    · rename_i hempty
      obtain ⟨digits, hs, hvalues⟩ := exists_some_digits (s := rest) (by simpa using hempty)
      exact ⟨some digits, congrArg (CodePoint.char '.' :: ·) hs, hvalues⟩
  · exact ⟨none, rfl, rfl⟩

/-- What stands behind an exponent that is taken whole. -/
def NoExponent (s : Text) : Prop :=
  NoDigit s ∧ s.head? ≠ some (.char 'e') ∧ s.head? ≠ some (.char 'E')

theorem exponentSign_sign (sign : Option Bool) (digits : Digits) (rest : Text) :
    exponentSign (exponentSignText sign ++ digitsText digits.toList ++ rest) =
      (sign == some true, digitsText digits.toList ++ rest) := by
  obtain ⟨⟨first, hfirst⟩, others⟩ := digits
  match sign with
  | some true => rfl
  | some false => rfl
  | none =>
    show exponentSign (.char first :: (digitsText others ++ rest)) =
      (false, .char first :: (digitsText others ++ rest))
    unfold exponentSign
    split
    · rename_i heq
      cases heq
      cases hfirst
    · rename_i heq
      cases heq
      cases hfirst
    · rfl

theorem exists_sign (s : Text) :
    ∃ sign : Option Bool, s = exponentSignText sign ++ (exponentSign s).2 ∧
      (exponentSign s).1 = (sign == some true) := by
  unfold exponentSign
  split
  · exact ⟨some true, rfl, rfl⟩
  · exact ⟨some false, rfl, rfl⟩
  · exact ⟨none, rfl, rfl⟩

theorem exponentPart_exponent (exponent : Option Exponent) {rest : Text} (h : NoExponent rest) :
    exponentPart (exponentText exponent ++ rest) = (exponent.map Exponent.value, rest) := by
  cases exponent with
  | none =>
    show exponentPart rest = (none, rest)
    cases rest with
    | nil => rfl
    | cons mark rest =>
      have hmark : (mark == .char 'e' || mark == .char 'E') = false := by
        have hlower : mark ≠ .char 'e' := fun hm => h.2.1 (congrArg some hm)
        have hupper : mark ≠ .char 'E' := fun hm => h.2.2 (congrArg some hm)
        simp [hlower, hupper]
      simp [exponentPart, hmark]
  | some e =>
    show exponentPart (e.mark :: (exponentSignText e.sign ++ digitsText e.digits.toList ++ rest)) =
      (some e.value, rest)
    have hmark : (e.mark == .char 'e' || e.mark == .char 'E') = true := by
      unfold Exponent.mark
      cases e.capital <;> rfl
    have hdigits := leadingDigits_digits e.digits.toList h.1
    have hbehind := behindDigits_of_noDigit h.1
    simp only [exponentPart, exponentSign_sign, hdigits, behindDigits_append, hbehind, hmark,
      e.digits.values_isEmpty, Bool.not_false, Bool.and_self, if_true, beq_iff_eq, Exponent.value]

theorem exists_exponent (s : Text) :
    ∃ exponent : Option Exponent, s = exponentText exponent ++ (exponentPart s).2 ∧
      (exponentPart s).1 = exponent.map Exponent.value := by
  cases s with
  | nil => exact ⟨none, rfl, rfl⟩
  | cons mark rest =>
    by_cases htaken : ((mark == .char 'e' || mark == .char 'E') &&
        !(leadingDigits (exponentSign rest).2).isEmpty) = true
    · have hpart : exponentPart (mark :: rest) =
          (some (if (exponentSign rest).1 then
            -(Text.numberOfDigits (leadingDigits (exponentSign rest).2) : Int)
            else Text.numberOfDigits (leadingDigits (exponentSign rest).2)),
            behindDigits (exponentSign rest).2) := by
        simp only [exponentPart, htaken, if_true]
      obtain ⟨hmark, hsome⟩ := Bool.and_eq_true_iff.mp htaken
      obtain ⟨digits, hdigits, hvalues⟩ := exists_some_digits (by simpa using hsome)
      obtain ⟨sign, hsign, hnegative⟩ := exists_sign rest
      refine ⟨some ⟨mark == .char 'E', sign, digits⟩, ?_, ?_⟩
      · have hwritten : (⟨mark == .char 'E', sign, digits⟩ : Exponent).mark = mark := by
          rcases Bool.or_eq_true_iff.mp hmark with h | h
          · rw [eq_of_beq h]
            rfl
          · rw [eq_of_beq h]
            rfl
        rw [hpart]
        show mark :: rest = Exponent.mark _ :: exponentSignText sign ++ digitsText digits.toList ++
          behindDigits (exponentSign rest).2
        rw [hwritten, List.append_assoc, List.cons_append, ← hdigits, ← hsign]
      · rw [hpart, hnegative, hvalues]
        simp [Exponent.value]
    · exact ⟨none, by simp [exponentPart, htaken, exponentText], by simp [exponentPart, htaken]⟩

/-! ## Whole numbers -/

/-- A number as the reader keeps it. -/
def Grammar.Number.literal (n : Number) : NumberLiteral :=
  ⟨n.negative, digitValues n.whole.toList, digitValues (fractionDigits n.fraction),
    n.exponent.map Exponent.value⟩

theorem minusSign_sign (n : Number) (rest : Text) :
    minusSign (n.signText ++ digitsText n.whole.toList ++ rest) =
      (n.negative, digitsText n.whole.toList ++ rest) := by
  unfold Number.signText
  cases n.negative with
  | true => rfl
  | false =>
    show minusSign (digitsText n.whole.toList ++ rest) = (false, digitsText n.whole.toList ++ rest)
    cases n.whole with
    | zero => rfl
    | other first nonzero others =>
      obtain ⟨first, hfirst⟩ := first
      show minusSign (.char first :: (digitsText others ++ rest)) =
        (false, .char first :: (digitsText others ++ rest))
      unfold minusSign
      split
      · rename_i heq
        cases heq
        cases hfirst
      · rfl

theorem exists_minusSign (s : Text) :
    s = (if (minusSign s).1 then [.char '-'] else []) ++ (minusSign s).2 := by
  unfold minusSign
  split <;> rfl

/-- Nothing that comes next could belong to a number. -/
def NumberEnds (s : Text) : Prop := NoFraction s ∧ NoExponent s

theorem noExponent_fraction (exponent : Option Exponent) {rest : Text} (h : NumberEnds rest) :
    NoFraction (exponentText exponent ++ rest) := by
  cases exponent with
  | none => exact h.1
  | some e =>
    have hmark : ∀ capital : Bool, isDigit (.char (if capital then 'E' else 'e')) = false ∧
        CodePoint.char (if capital then 'E' else 'e') ≠ .char '.' := by decide
    exact ⟨noDigit_cons.mpr (hmark e.capital).1,
      fun hpoint => (hmark e.capital).2 (Option.some.inj hpoint)⟩

theorem noDigit_fraction (fraction : Option Digits) {rest : Text} (h : NoDigit rest) :
    NoDigit (fractionText fraction ++ rest) := by
  cases fraction with
  | none => exact h
  | some digits => exact noDigit_cons.mpr (by decide)

theorem numberLiteral?_number (n : Number) {rest : Text} (h : NumberEnds rest) :
    numberLiteral? (n.text ++ rest) = some (n.literal, rest) := by
  have hexponent := noExponent_fraction n.exponent h
  have hfraction := noDigit_fraction n.fraction hexponent.1
  have hsign := minusSign_sign n (fractionText n.fraction ++ (exponentText n.exponent ++ rest))
  have hassoc : n.text ++ rest = n.signText ++ digitsText n.whole.toList ++
      (fractionText n.fraction ++ (exponentText n.exponent ++ rest)) := by
    rw [Number.text, List.append_assoc, List.append_assoc _ (fractionText n.fraction)]
  rw [hassoc, numberLiteral?, hsign]
  simp only [wholePart?_whole n.whole hfraction, fractionPart_fraction n.fraction hexponent,
    exponentPart_exponent n.exponent h.2]
  rfl

/-- What the reader takes for a number is one. -/
theorem exists_number {s left : Text} {literal : NumberLiteral}
    (h : numberLiteral? s = some (literal, left)) :
    ∃ n : Number, s = n.text ++ left ∧ n.literal = literal := by
  unfold numberLiteral? at h
  split at h
  · cases h
  · rename_i values behind hwhole
    have hparts : (⟨(minusSign s).1, values, (fractionPart behind).1,
        (exponentPart (fractionPart behind).2).1⟩, (exponentPart (fractionPart behind).2).2) =
          (literal, left) := Option.some.inj h
    obtain ⟨rfl, rfl⟩ := Prod.mk.inj hparts
    obtain ⟨whole, hdigits, rfl⟩ := exists_whole hwhole
    obtain ⟨fraction, hfraction, hfractionValues⟩ := exists_fraction behind
    obtain ⟨exponent, hexponent, hexponentValue⟩ := exists_exponent (fractionPart behind).2
    refine ⟨⟨(minusSign s).1, whole, fraction, exponent⟩, ?_, ?_⟩
    · calc s = (if (minusSign s).1 then [.char '-'] else []) ++ (minusSign s).2 :=
            exists_minusSign s
        _ = (if (minusSign s).1 then [.char '-'] else []) ++ (digitsText whole.toList ++
              (fractionText fraction ++ (exponentText exponent ++
                (exponentPart (fractionPart behind).2).2))) := by
            rw [← hexponent, ← hfraction, ← hdigits]
        _ = _ := by simp only [Number.text, Number.signText, List.append_assoc]
    · rw [Number.literal, ← hfractionValues, ← hexponentValue]

/-! ## The longest number -/

/-- Where a digit comes next, there is neither a fraction nor an exponent. -/
theorem noDigit_or (fraction : Option Digits) (exponent : Option Exponent) (left : Text) :
    NoDigit (fractionText fraction ++ (exponentText exponent ++ left)) ∨
      fraction = none ∧ exponent = none := by
  cases fraction with
  | some digits => exact Or.inl (noDigit_cons.mpr rfl)
  | none =>
    cases exponent with
    | none => exact Or.inr ⟨rfl, rfl⟩
    | some e =>
      refine Or.inl (noDigit_cons.mpr ?_)
      show isDigit (.char (if e.capital then 'E' else 'e')) = false
      cases e.capital <;> rfl

theorem exponentPart_longest (exponent : Option Exponent) (left : Text) :
    (exponentPart (exponentText exponent ++ left)).2.length ≤ left.length := by
  cases exponent with
  | none => exact exponentPart_length_le left
  | some e =>
    have hmark : (e.mark == .char 'e' || e.mark == .char 'E') = true := by
      unfold Exponent.mark
      cases e.capital <;> rfl
    show (exponentPart (e.mark :: (exponentSignText e.sign ++ digitsText e.digits.toList ++
      left))).2.length ≤ left.length
    simp only [exponentPart, exponentSign_sign, leadingDigits_some, hmark, behindDigits_append,
      Bool.not_false, Bool.and_self, if_true]
    exact behindDigits_length_le left

theorem fractionPart_longest (fraction : Option Digits) (exponent : Option Exponent) (left : Text) :
    (exponentPart (fractionPart
      (fractionText fraction ++ (exponentText exponent ++ left))).2).2.length ≤ left.length := by
  have hshort : ∀ s : Text, s.length ≤ left.length →
      (exponentPart s).2.length ≤ left.length :=
    fun s hs => Nat.le_trans (exponentPart_length_le s) hs
  cases fraction with
  | none =>
    show (exponentPart (fractionPart (exponentText exponent ++ left)).2).2.length ≤ left.length
    cases exponent with
    | none => exact hshort _ (fractionPart_length_le left)
    | some e =>
      -- An exponent mark is no point, so that nothing is taken for a fraction.
      have hsame : (fractionPart (exponentText (some e) ++ left)).2 =
          exponentText (some e) ++ left := by
        show (fractionPart (e.mark :: _)).2 = e.mark :: _
        unfold fractionPart Exponent.mark
        cases e.capital <;> rfl
      rw [hsame]
      exact exponentPart_longest (some e) left
  | some digits =>
    have hbehind :
        (fractionPart (fractionText (some digits) ++ (exponentText exponent ++ left))).2 =
          behindDigits (exponentText exponent ++ left) := by
      show (fractionPart (.char '.' ::
        (digitsText digits.toList ++ (exponentText exponent ++ left)))).2 = _
      rw [fractionPart, leadingDigits_some, behindDigits_append]
      rfl
    rw [hbehind]
    rcases noDigit_or none exponent left with hnext | ⟨-, rfl⟩
    · have hsame : behindDigits (exponentText exponent ++ left) = exponentText exponent ++ left :=
        behindDigits_of_noDigit hnext
      rw [hsame]
      exact exponentPart_longest exponent left
    · exact hshort _ (behindDigits_length_le left)

/-- The reader takes a number wherever one stands, and leaves no more than what is behind it. -/
theorem numberLiteral?_longest (n : Number) (left : Text) :
    ∃ literal left', numberLiteral? (n.text ++ left) = some (literal, left') ∧
      left'.length ≤ left.length := by
  have hsign := minusSign_sign n (fractionText n.fraction ++ (exponentText n.exponent ++ left))
  have hassoc : n.text ++ left = n.signText ++ digitsText n.whole.toList ++
      (fractionText n.fraction ++ (exponentText n.exponent ++ left)) := by
    simp [Number.text]
  have hwhole : ∃ values behind,
      wholePart? (digitsText n.whole.toList ++
        (fractionText n.fraction ++ (exponentText n.exponent ++ left))) = some (values, behind) ∧
      (exponentPart (fractionPart behind).2).2.length ≤ left.length := by
    cases n.whole with
    | zero => exact ⟨_, _, rfl, fractionPart_longest n.fraction n.exponent left⟩
    | other first nonzero others =>
      rcases noDigit_or n.fraction n.exponent left with hnext | ⟨hfraction, hexponent⟩
      · exact ⟨_, _, wholePart?_whole (.other first nonzero others) hnext,
          fractionPart_longest n.fraction n.exponent left⟩
      · rw [hfraction, hexponent]
        refine ⟨_, _, wholePart?_other first nonzero others left, ?_⟩
        have hbehind := behindDigits_length_le left
        have hfraction := fractionPart_length_le (behindDigits left)
        have hexponent := exponentPart_length_le (fractionPart (behindDigits left)).2
        omega
  obtain ⟨values, behind, hwhole, hlength⟩ := hwhole
  rw [hassoc, numberLiteral?, hsign]
  simp only [hwhole]
  exact ⟨_, _, rfl, hlength⟩

/-- A number in front of a text, of which no longer number stands there. -/
structure IsLongest (n : Number) (s left : Text) : Prop where
  here : s = n.text ++ left
  longest : ∀ (m : Number) (behind : Text), s = m.text ++ behind → left.length ≤ behind.length

/-- The reader takes the longest number. -/
theorem numberLiteral?_eq_some_iff {s left : Text} {literal : NumberLiteral} :
    numberLiteral? s = some (literal, left) ↔
      ∃ n : Number, n.literal = literal ∧ IsLongest n s left := by
  constructor
  · intro h
    obtain ⟨n, hn, hliteral⟩ := exists_number h
    refine ⟨n, hliteral, hn, fun m behind hm => ?_⟩
    obtain ⟨literal', left', hread, hlength⟩ := numberLiteral?_longest m behind
    rw [← hm, h] at hread
    cases hread
    exact hlength
  · rintro ⟨n, rfl, hn, hlongest⟩
    obtain ⟨literal', left', hread, hlength⟩ := numberLiteral?_longest n left
    rw [← hn] at hread
    obtain ⟨m, hm, rfl⟩ := exists_number hread
    -- Both numbers stand in front of the same text and leave equally much of it.
    have hsame := hlongest m left' hm
    obtain ⟨htext, hleft⟩ := List.append_inj' (hn.symm.trans hm) (by omega)
    have hends : NumberEnds [] := by simp [NumberEnds, NoFraction, NoExponent, NoDigit]
    have hliteral : some (n.literal, ([] : Text)) = some (m.literal, []) := by
      rw [← numberLiteral?_number n hends, ← numberLiteral?_number m hends, htext]
    rw [hread, hleft, (Prod.mk.inj (Option.some.inj hliteral)).1]

/-! ## Values -/

/-- The value of a number is the one that it denotes, unless it is an integer of too many digits. -/
theorem literal_value (n : Number) :
    n.literal.value =
      if Text.maxIntegerDigits < n.integerLength then .error (.digits n.integerLength)
      else .ok n.value := by
  obtain ⟨negative, whole, fraction, exponent⟩ := n
  have hempty : (digitValues (fractionDigits fraction)).isEmpty = fraction.isNone := by
    cases fraction with
    | none => rfl
    | some digits => exact digits.values_isEmpty
  have hlength : (digitValues whole.toList).length = whole.toList.length := by simp [digitValues]
  unfold NumberLiteral.value Number.integerLength Number.value Number.isInteger Number.literal
  simp only [hempty, Option.isNone_map, hlength]
  cases hinteger : fraction.isNone && exponent.isNone with
  | true =>
    obtain ⟨hfraction, -⟩ := Bool.and_eq_true_iff.mp hinteger
    cases fraction with
    | some digits => cases hfraction
    | none => simp [Number.allDigits, fractionDigits]
  | false =>
    simp [Number.allDigits, Number.power, digitValues]

end TextTidy.Json
