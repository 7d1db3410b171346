import TextTidy.Proofs.Json.Parse

/-!
# Two texts read in lockstep

Two readers go through two texts at the same time. As long as what they have left begins with the
same character, or with the end of a line on both sides, they do the same: a line end is spacing
where spacing may stand, and everywhere else it is a flaw, whichever character it begins with. So
they come to the same value, or to the same fault at places that belong together. This is proved
once for every relation between the texts that are left, and for every reader.
-/

namespace TextTidy.Json

open Grammar

/-- Whether a character ends a line or is the first of two that do. -/
def isLineEnd (c : CodePoint) : Bool := c == .char '\r' || c == .char '\n'

theorem isLineEnd_iff {c : CodePoint} :
    isLineEnd c = true ↔ c = .char '\r' ∨ c = .char '\n' := by
  simp [isLineEnd]

theorem isLineEnd_eq_false {c : CodePoint} (hreturn : c ≠ .char '\r') (hfeed : c ≠ .char '\n') :
    isLineEnd c = false := by
  rw [← Bool.not_eq_true, isLineEnd_iff, not_or]
  exact ⟨hreturn, hfeed⟩

theorem ne_of_isLineEnd {c d : CodePoint} (hc : isLineEnd c = true) (hd : isLineEnd d = false) :
    c ≠ d := by
  rintro rfl
  rw [hc] at hd
  cases hd

/-! ## Line ends in strings -/

theorem element_lineEnd {opening : Text} {c : CodePoint} (hc : isLineEnd c = true) (rest : Text) :
    element opening (.char '\\') (c :: rest) =
      .error (.malformed .unknownEscape (.char '\\' :: c :: rest)) := by
  rcases isLineEnd_iff.mp hc with rfl | rfl <;> rfl

theorem charactersFrom_lineEnd {opening : Text} {c : CodePoint} (hc : isLineEnd c = true)
    (rest : Text) :
    charactersFrom opening 0 (c :: rest) = .error (.malformed .controlCharacter (c :: rest)) := by
  rcases isLineEnd_iff.mp hc with rfl | rfl <;> rfl

theorem isLineEnd_of_mem_digits {digits : HexDigits} {c : CodePoint} (hc : c ∈ digits.text) :
    isLineEnd c = false := by
  obtain ⟨x, rfl⟩ := exists_hexDigit_of_mem hc
  exact isLineEnd_eq_false (x.ne_char (by decide)) (x.ne_char (by decide))

/-- No character of a string ends a line. -/
theorem isLineEnd_of_mem_characters {cs : List Character} {c : CodePoint}
    (hc : c ∈ charactersText cs) : isLineEnd c = false := by
  obtain ⟨character, -, hc⟩ := List.mem_flatMap.mp hc
  cases character with
  | plain d visible noQuote noBackslash =>
    obtain rfl := List.mem_singleton.mp hc
    refine isLineEnd_eq_false ?_ ?_
    · rintro rfl
      exact absurd visible (by decide)
    · rintro rfl
      exact absurd visible (by decide)
  | letter name meaning known =>
    have hname : ∀ pair ∈ escapes, isLineEnd (.char pair.1) = false := by decide
    rcases List.mem_cons.mp hc with rfl | hc
    · rfl
    · obtain rfl := List.mem_singleton.mp hc
      exact hname _ known
  | numeric digits =>
    rcases List.mem_cons.mp hc with rfl | hc
    · rfl
    · rcases List.mem_cons.mp hc with rfl | hc
      · rfl
      · exact isLineEnd_of_mem_digits hc

/-- What the reader of a string takes for an element holds no line end. -/
theorem isLineEnd_of_mem_element {opening rest : Text} {c p : CodePoint} {more : Nat}
    (h : element opening c rest = .ok (.point p more)) :
    ∀ d ∈ (c :: rest).take (more + 1), isLineEnd d = false := by
  obtain ⟨cs, hcs⟩ := exists_element h
  have htaken : (c :: rest).take (more + 1) = charactersText cs :=
    List.append_cancel_right ((List.take_append_drop (more + 1) (c :: rest)).trans hcs)
  rw [htaken]
  exact fun d => isLineEnd_of_mem_characters

/-! ## Texts in lockstep -/

/-- A relation between the texts that two readers have left in which neither can tell its text from
    the other one. -/
structure Lockstep (R : Text → Text → Prop) : Prop where
  /-- The first text ends only with the second. -/
  nil_left : ∀ {t}, R [] t → t = []
  /-- The second text ends only with the first. -/
  nil_right : ∀ {s}, R s [] → s = []
  /-- The texts go on with the same character, or both with a line end. -/
  step : ∀ {c d s t}, R (c :: s) (d :: t) → (c = d ∧ R s t) ∨
    (isLineEnd c = true ∧ isLineEnd d = true ∧ R (skipSpacing (c :: s)) (skipSpacing (d :: t)))

namespace Lockstep

variable {R : Text → Text → Prop} (hR : Lockstep R) {s t : Text}

include hR

theorem eq_nil_iff (h : R s t) : s = [] ↔ t = [] := by
  constructor
  · rintro rfl
    exact hR.nil_left h
  · rintro rfl
    exact hR.nil_right h

/-- A character that ends no line comes next on both sides or on neither. -/
theorem head_cases {c : CodePoint} (hc : isLineEnd c = false) (h : R s t) :
    (∃ s' t', s = c :: s' ∧ t = c :: t' ∧ R s' t') ∨
      (s.head? ≠ some c ∧ t.head? ≠ some c) := by
  cases s with
  | nil =>
    obtain rfl := hR.nil_left h
    exact Or.inr ⟨by simp, by simp⟩
  | cons a s =>
    cases t with
    | nil => cases hR.nil_right h
    | cons b t =>
      rcases hR.step h with ⟨rfl, hrest⟩ | ⟨ha, hb, -⟩
      · by_cases hac : a = c
        · subst hac
          exact Or.inl ⟨s, t, rfl, rfl, hrest⟩
        · exact Or.inr ⟨by simpa using hac, by simpa using hac⟩
      · exact Or.inr ⟨by simpa using ne_of_isLineEnd ha hc, by simpa using ne_of_isLineEnd hb hc⟩

/-- The readers pass the spacing together, of which there may be more on one side. -/
theorem skipSpacing_left (h : R s t) : R (skipSpacing s) (skipSpacing t) := by
  induction s generalizing t with
  | nil =>
    obtain rfl := hR.nil_left h
    exact h
  | cons c s ih =>
    cases t with
    | nil => cases hR.nil_right h
    | cons d t =>
      rcases hR.step h with ⟨rfl, hrest⟩ | ⟨-, -, hbehind⟩
      · cases hc : isSpacing c with
        | false => simpa [skipSpacing, hc] using h
        | true => simpa [skipSpacing, hc] using ih hrest
      · exact hbehind

/-- The readers take the same characters of a kind that ends no line. -/
theorem span {f : CodePoint → Bool} (hf : ∀ c, isLineEnd c = true → f c = false) (h : R s t) :
    s.takeWhile f = t.takeWhile f ∧ R (s.dropWhile f) (t.dropWhile f) := by
  induction s generalizing t with
  | nil =>
    obtain rfl := hR.nil_left h
    exact ⟨rfl, h⟩
  | cons c s ih =>
    cases t with
    | nil => cases hR.nil_right h
    | cons d t =>
      rcases hR.step h with ⟨rfl, hrest⟩ | ⟨hc, hd, -⟩
      · obtain ⟨htaken, hleft⟩ := ih hrest
        cases hfc : f c with
        | false => simpa [hfc] using h
        | true => simp [hfc, htaken, hleft]
      · simpa [hf c hc, hf d hd] using h

/-- What a text begins with, if it ends no line, the other text begins with too. -/
theorem append_left (front : Text) (hfront : ∀ c ∈ front, isLineEnd c = false)
    (h : R (front ++ s) t) : ∃ t', t = front ++ t' ∧ R s t' := by
  induction front generalizing t with
  | nil => exact ⟨t, rfl, h⟩
  | cons c front ih =>
    obtain ⟨hc, hfront⟩ := List.forall_mem_cons.mp hfront
    rcases hR.head_cases hc h with ⟨s', t', hs, rfl, hbehind⟩ | ⟨hne, -⟩
    · obtain ⟨-, rfl⟩ := List.cons.inj hs
      obtain ⟨rest, rfl, hrest⟩ := ih hfront hbehind
      exact ⟨rest, rfl, hrest⟩
    · exact absurd rfl hne

/-- Behind as many characters, none of which ends a line, the texts are still related. -/
theorem drop_left {n : Nat} (hfront : ∀ c ∈ s.take n, isLineEnd c = false) (h : R s t) :
    R (s.drop n) (t.drop n) := by
  induction n generalizing s t with
  | zero => exact h
  | succ n ih =>
    cases s with
    | nil =>
      obtain rfl := hR.nil_left h
      exact h
    | cons c s =>
      obtain ⟨hc, hfront⟩ := List.forall_mem_cons.mp hfront
      rcases hR.head_cases hc h with ⟨s', t', hs, rfl, hrest⟩ | ⟨hne, -⟩
      · obtain ⟨-, rfl⟩ := List.cons.inj hs
        exact ih hfront hrest
      · exact absurd rfl hne

theorem symm : Lockstep fun s t => R t s :=
  ⟨hR.nil_right, hR.nil_left, fun h => by
    rcases hR.step h with ⟨rfl, hrest⟩ | ⟨hc, hd, hbehind⟩
    · exact Or.inl ⟨rfl, hrest⟩
    · exact Or.inr ⟨hd, hc, hbehind⟩⟩

end Lockstep

/-! ## Results -/

/-- The same result, with related texts left behind it. -/
def Beside (R : Text → Text → Prop) {α : Type} (p q : α × Text) : Prop := p.1 = q.1 ∧ R p.2 q.2

/-- The same fault, at related places. -/
inductive FaultsAgree (R : Text → Text → Prop) : Fault → Fault → Prop
  | malformed (flaw : Flaw) {left left' : Text} (h : R left left') :
      FaultsAgree R (.malformed flaw left) (.malformed flaw left')
  | constant (word : Constant) {left left' : Text} (h : R left left') :
      FaultsAgree R (.constant word left) (.constant word left')
  | beyond (limit : Limit) : FaultsAgree R (.beyond limit) (.beyond limit)

/-- Related results, or the same fault at related places. -/
inductive Agree (R : Text → Text → Prop) {α : Type} (P : α → α → Prop) :
    Except Fault α → Except Fault α → Prop
  | ok {a b : α} (h : P a b) : Agree R P (.ok a) (.ok b)
  | error {fault fault' : Fault} (h : FaultsAgree R fault fault') :
      Agree R P (.error fault) (.error fault')

section Results

variable {R : Text → Text → Prop} {α β : Type} {P : α → α → Prop} {Q : β → β → Prop}
  {x y : Except Fault α}

theorem Agree.bind (h : Agree R P x y) {f g : α → Except Fault β}
    (hfg : ∀ a b, x = .ok a → P a b → Agree R Q (f a) (g b)) :
    Agree R Q (x.bind f) (y.bind g) := by
  cases h with
  | ok h => exact hfg _ _ rfl h
  | error h => exact .error h

/-- What is made of the result alone leaves the same text behind it. -/
theorem Agree.map {x y : Except Fault (α × Text)} (h : Agree R (Beside R) x y) (f : α → β) :
    Agree R (Beside R) (x.map fun (a, left) => (f a, left))
      (y.map fun (a, left) => (f a, left)) := by
  cases h with
  | @ok p q h => exact .ok ⟨congrArg f h.1, h.2⟩
  | error h => exact .error h

/-- Both sides have taken something, or neither. -/
theorem rel_cases {x y : Option (α × Text)} (h : Option.Rel (Beside R) x y) :
    (∃ a left left', x = some (a, left) ∧ y = some (a, left') ∧ R left left') ∨
      (x = none ∧ y = none) := by
  cases h with
  | none => exact Or.inr ⟨rfl, rfl⟩
  | @some p q h =>
    obtain ⟨a, left⟩ := p
    obtain ⟨_, left'⟩ := q
    obtain ⟨rfl, hleft⟩ := h
    exact Or.inl ⟨a, left, left', rfl, rfl, hleft⟩

theorem agree_malformed (flaw : Flaw) {left left' : Text} (h : R left left') :
    Agree R P (.error (.malformed flaw left)) (.error (.malformed flaw left')) :=
  .error (.malformed flaw h)

end Results

namespace Lockstep

variable {R : Text → Text → Prop} (hR : Lockstep R) {s t : Text}

include hR

/-! ## Words -/

theorem dropStart?_rel {start : List Char}
    (hstart : ∀ a ∈ start, isLineEnd (.char a) = false) (h : R s t) :
    Option.Rel R (s.dropStart? start) (t.dropStart? start) := by
  induction start generalizing s t with
  | nil => exact .some h
  | cons a start ih =>
    obtain ⟨ha, hstart⟩ := List.forall_mem_cons.mp hstart
    rcases hR.head_cases ha h with ⟨s', t', rfl, rfl, hrest⟩ | ⟨hs, ht⟩
    · simpa [Text.dropStart?] using ih hstart hrest
    · have hnone : ∀ u : Text, u.head? ≠ some (.char a) → u.dropStart? (a :: start) = none := by
        intro u hu
        cases u with
        | nil => rfl
        | cons c u => exact dropStart?_of_ne (by simpa using hu)
      rw [hnone s hs, hnone t ht]
      exact .none

theorem oneOf?_rel {α : Type} {words : List (String × α)}
    (hwords : ∀ word ∈ words, ∀ a ∈ word.1.toList, isLineEnd (.char a) = false) (h : R s t) :
    Option.Rel (Beside R) (oneOf? words s) (oneOf? words t) := by
  induction words with
  | nil => exact .none
  | cons word words ih =>
    obtain ⟨hword, hwords⟩ := List.forall_mem_cons.mp hwords
    have hothers := ih hwords
    simp only [oneOf?, List.findSome?_cons] at hothers ⊢
    have hdrop := hR.dropStart?_rel hword h
    revert hdrop
    cases s.dropStart? word.1.toList <;> cases t.dropStart? word.1.toList <;> intro hdrop
    · exact hothers
    · cases hdrop
    · cases hdrop
    · cases hdrop with
      | some hrest => exact .some ⟨rfl, hrest⟩

/-! ## Numbers -/

theorem digits_agree (h : R s t) :
    leadingDigits s = leadingDigits t ∧ R (behindDigits s) (behindDigits t) := by
  have hdigit : ∀ c, isLineEnd c = true → isDigit c = false := by
    intro c hc
    rcases isLineEnd_iff.mp hc with rfl | rfl <;> decide
  obtain ⟨htaken, hleft⟩ := hR.span hdigit h
  exact ⟨by rw [leadingDigits, leadingDigits, htaken], hleft⟩

theorem minusSign_agree (h : R s t) : Beside R (minusSign s) (minusSign t) := by
  have hnone : ∀ u : Text, u.head? ≠ some (.char '-') → minusSign u = (false, u) := by
    intro u hu
    unfold minusSign
    split
    · exact absurd rfl hu
    · rfl
  rcases hR.head_cases (c := .char '-') (by decide) h with ⟨s', t', rfl, rfl, hrest⟩ | ⟨hs, ht⟩
  · exact ⟨rfl, hrest⟩
  · rw [hnone s hs, hnone t ht]
    exact ⟨rfl, h⟩

theorem wholePart?_rel (h : R s t) :
    Option.Rel (Beside R) (wholePart? s) (wholePart? t) := by
  have hother : ∀ u : Text, u.head? ≠ some (.char '0') → wholePart? u =
      if (leadingDigits u).isEmpty then none else some (leadingDigits u, behindDigits u) := by
    intro u hu
    unfold wholePart?
    split
    · exact absurd rfl hu
    · rfl
  rcases hR.head_cases (c := .char '0') (by decide) h with ⟨s', t', rfl, rfl, hrest⟩ | ⟨hs, ht⟩
  · exact .some ⟨rfl, hrest⟩
  · obtain ⟨hdigits, hleft⟩ := hR.digits_agree h
    rw [hother s hs, hother t ht, hdigits]
    split
    · exact .none
    · exact .some ⟨rfl, hleft⟩

theorem fractionPart_agree (h : R s t) : Beside R (fractionPart s) (fractionPart t) := by
  have hother : ∀ u : Text, u.head? ≠ some (.char '.') → fractionPart u = ([], u) := by
    intro u hu
    unfold fractionPart
    split
    · exact absurd rfl hu
    · rfl
  rcases hR.head_cases (c := .char '.') (by decide) h with ⟨s', t', rfl, rfl, hrest⟩ | ⟨hs, ht⟩
  · obtain ⟨hdigits, hleft⟩ := hR.digits_agree hrest
    simp only [fractionPart, hdigits]
    split
    · exact ⟨rfl, h⟩
    · exact ⟨rfl, hleft⟩
  · rw [hother s hs, hother t ht]
    exact ⟨rfl, h⟩

theorem exponentSign_agree (h : R s t) : Beside R (exponentSign s) (exponentSign t) := by
  have hother : ∀ u : Text, u.head? ≠ some (.char '-') → u.head? ≠ some (.char '+') →
      exponentSign u = (false, u) := by
    intro u hminus hplus
    unfold exponentSign
    split
    · exact absurd rfl hminus
    · exact absurd rfl hplus
    · rfl
  rcases hR.head_cases (c := .char '-') (by decide) h with ⟨s', t', rfl, rfl, hrest⟩ | ⟨hs, ht⟩
  · exact ⟨rfl, hrest⟩
  · rcases hR.head_cases (c := .char '+') (by decide) h with
      ⟨s', t', rfl, rfl, hrest⟩ | ⟨hs', ht'⟩
    · exact ⟨rfl, hrest⟩
    · rw [hother s hs hs', hother t ht ht']
      exact ⟨rfl, h⟩

theorem exponentPart_agree (h : R s t) : Beside R (exponentPart s) (exponentPart t) := by
  have hmark : ∀ c, isLineEnd c = true → (c == .char 'e' || c == .char 'E') = false := by
    intro c hc
    rcases isLineEnd_iff.mp hc with rfl | rfl <;> decide
  cases s with
  | nil =>
    obtain rfl := hR.nil_left h
    exact ⟨rfl, h⟩
  | cons c s =>
    cases t with
    | nil => cases hR.nil_right h
    | cons d t =>
      rcases hR.step h with ⟨rfl, hrest⟩ | ⟨hc, hd, -⟩
      · obtain ⟨hsign, hbehind⟩ := hR.exponentSign_agree hrest
        obtain ⟨hdigits, hleft⟩ := hR.digits_agree hbehind
        simp only [exponentPart, hsign, hdigits]
        split
        · exact ⟨rfl, hleft⟩
        · exact ⟨rfl, h⟩
      · simp only [exponentPart, hmark c hc, hmark d hd, Bool.false_and, Bool.false_eq_true,
          if_false]
        exact ⟨rfl, h⟩

theorem numberLiteral?_rel (h : R s t) :
    Option.Rel (Beside R) (numberLiteral? s) (numberLiteral? t) := by
  obtain ⟨hsign, hbehind⟩ := hR.minusSign_agree h
  unfold numberLiteral?
  rw [hsign]
  rcases rel_cases (hR.wholePart?_rel hbehind) with ⟨whole, left, left', hs, ht, hleft⟩ | ⟨hs, ht⟩
  · obtain ⟨hfraction, hleft⟩ := hR.fractionPart_agree hleft
    obtain ⟨hexponent, hleft⟩ := hR.exponentPart_agree hleft
    simp only [hs, ht, hfraction, hexponent]
    exact .some ⟨rfl, hleft⟩
  · rw [hs, ht]
    exact .none

/-! ## Strings -/

/-- Four digits are followed by something, and the other text has the same ones. -/
theorem fourDigits?_some {p : CodePoint} (h : R s t) (hs : fourDigits? s = some p) :
    fourDigits? t = some p ∧ R (s.drop 4) (t.drop 4) := by
  obtain ⟨digits, hdigits, rfl⟩ := exists_hexDigits hs
  have hbehind : s.drop 4 ≠ [] := by
    intro hnil
    rw [hnil, List.append_nil] at hdigits
    rw [hdigits] at hs
    cases hs
  rw [hdigits] at h
  obtain ⟨rest, rfl, hrest⟩ := hR.append_left digits.text (fun _ => isLineEnd_of_mem_digits) h
  obtain ⟨c, left, rfl⟩ :=
    List.exists_cons_of_ne_nil fun hnil => hbehind ((hR.eq_nil_iff hrest).mpr hnil)
  exact ⟨fourDigits?_digits digits c left, hrest⟩

theorem fourDigits?_eq (h : R s t) : fourDigits? s = fourDigits? t := by
  refine Option.ext fun p => ⟨fun hs => (hR.fourDigits?_some h hs).1, fun ht => ?_⟩
  exact (hR.symm.fourDigits?_some h ht).1

theorem numericEscape?_eq (h : R s t) : numericEscape? s = numericEscape? t := by
  cases hs : fourDigits? s with
  | none =>
    have ht := hR.fourDigits?_eq h
    rw [hs] at ht
    simp [numericEscape?, hs, ← ht]
  | some first =>
    obtain ⟨ht, hbehind⟩ := hR.fourDigits?_some h hs
    simp only [numericEscape?, hs, ht, Option.bind_eq_bind, Option.bind_some]
    have hplain : ∀ c ∈ [CodePoint.char '\\', .char 'u'], isLineEnd c = false := by decide
    split
    · rename_i more hmore
      rw [hmore] at hbehind
      obtain ⟨more', hmore', hrest⟩ := hR.append_left [_, _] hplain hbehind
      rw [hmore', hR.fourDigits?_eq hrest]
      rfl
    · rename_i hother
      split
      · rename_i more' hmore'
        rw [hmore'] at hbehind
        obtain ⟨more, hmore, -⟩ := hR.symm.append_left [_, _] hplain hbehind
        exact absurd hmore (hother more)
      · rfl

theorem element_agree {c : CodePoint} {opening opening' : Text} (hopening : R opening opening')
    (h : R (c :: s) (c :: t)) (hrest : R s t) :
    Agree R Eq (element opening c s) (element opening' c t) := by
  by_cases hquote : c = .char '"'
  · subst hquote
    exact .ok rfl
  by_cases hbackslash : c = .char '\\'
  · subst hbackslash
    cases s with
    | nil =>
      obtain rfl := hR.nil_left hrest
      exact agree_malformed _ hopening
    | cons a s =>
      cases t with
      | nil => cases hR.nil_right hrest
      | cons b t =>
        rcases hR.step hrest with ⟨rfl, hdigits⟩ | ⟨ha, hb, -⟩
        · by_cases hu : a = .char 'u'
          · subst hu
            simp only [element, hR.numericEscape?_eq hdigits]
            split
            · exact .ok rfl
            · exact agree_malformed _ hrest
          · rw [element_escape hu, element_escape hu]
            split
            · exact .ok rfl
            · exact agree_malformed _ h
        · rw [element_lineEnd ha, element_lineEnd hb]
          exact agree_malformed _ h
  by_cases hcontrol : c.value < 0x20
  · rw [element_control hcontrol, element_control hcontrol]
    exact agree_malformed _ h
  · rw [element_plain (by omega) hquote hbackslash, element_plain (by omega) hquote hbackslash]
    exact .ok rfl

theorem charactersFrom_agree {opening opening' : Text} (hopening : R opening opening')
    (h : R s t) :
    Agree R (Beside R) (charactersFrom opening 0 s) (charactersFrom opening' 0 t) := by
  induction hn : s.length using Nat.strongRecOn generalizing s t with
  | ind n ih =>
    cases s with
    | nil =>
      obtain rfl := hR.nil_left h
      exact agree_malformed _ hopening
    | cons c s =>
      cases t with
      | nil => cases hR.nil_right h
      | cons d t =>
        rcases hR.step h with ⟨rfl, hrest⟩ | ⟨hc, hd, -⟩
        · rw [charactersFrom_cons, charactersFrom_cons]
          refine (hR.element_agree hopening h hrest).bind ?_
          rintro e _ helement rfl
          cases e with
          | close => exact .ok ⟨rfl, hrest⟩
          | point p more =>
            have hshorter : (s.drop more).length < n := by
              rw [List.length_cons] at hn
              rw [List.length_drop]
              omega
            have hbehind := hR.drop_left (isLineEnd_of_mem_element helement) h
            exact (ih _ hshorter hbehind rfl).map (p :: ·)
        · rw [charactersFrom_lineEnd hc, charactersFrom_lineEnd hd]
          exact agree_malformed _ h

end Lockstep

end TextTidy.Json
