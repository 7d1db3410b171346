import TextTidy.Proofs.Blank
import TextTidy.Proofs.Json.Member
import TextTidy.Proofs.Json.Number
import TextTidy.Proofs.Json.Reader
import TextTidy.Proofs.Json.String

/-!
# Reading what the grammar derives

A value of the grammar is read as what it denotes, whatever stands behind it, as long as it fits the
bounds of the reader and nothing behind it could belong to a number.
-/

namespace TextTidy.Json

open Grammar

variable {dialect : Dialect}

/-! ## Spacing -/

theorem isSpacing_of_mem {gap : List Space} {c : CodePoint} (h : c ∈ spacing gap) :
    isSpacing c = true := by
  obtain ⟨space, -, rfl⟩ := List.mem_map.mp h
  cases space <;> decide

theorem skipSpacing_spacing (gap : List Space) (s : Text) :
    skipSpacing (spacing gap ++ s) = skipSpacing s :=
  List.dropWhile_append_of_pos fun _ hc => isSpacing_of_mem hc

theorem skipSpacing_cons {c : CodePoint} (h : isSpacing c = false) (s : Text) :
    skipSpacing (c :: s) = c :: s := by
  simp [skipSpacing, h]

theorem skipSpacing_gap (gap : List Space) {c : CodePoint} (h : isSpacing c = false) (s : Text) :
    skipSpacing (spacing gap ++ c :: s) = c :: s := by
  rw [skipSpacing_spacing, skipSpacing_cons h]

theorem exists_space {c : CodePoint} (h : isSpacing c = true) :
    ∃ space : Space, c = .char space.char := by
  have hc : c = .char ' ' ∨ c = .char '\t' ∨ c = .char '\n' ∨ c = .char '\r' := by
    simpa [isSpacing, or_assoc] using h
  rcases hc with rfl | rfl | rfl | rfl
  · exact ⟨.blank, rfl⟩
  · exact ⟨.tab, rfl⟩
  · exact ⟨.lineFeed, rfl⟩
  · exact ⟨.carriageReturn, rfl⟩

theorem exists_spacing (s : Text) : ∃ gap, s = spacing gap ++ skipSpacing s := by
  induction s with
  | nil => exact ⟨[], rfl⟩
  | cons c s ih =>
    cases hc : isSpacing c with
    | false => exact ⟨[], (skipSpacing_cons hc s).symm⟩
    | true =>
      obtain ⟨gap, hgap⟩ := ih
      obtain ⟨space, rfl⟩ := exists_space hc
      have hskip : skipSpacing (.char space.char :: s) = skipSpacing s :=
        skipSpacing_spacing [space] s
      refine ⟨space :: gap, ?_⟩
      rw [hskip]
      exact congrArg (CodePoint.char space.char :: ·) hgap

theorem numberEnds_cons {c : CodePoint} {s : Text} (hdigit : isDigit c = false)
    (hpoint : c ≠ .char '.') (hlower : c ≠ .char 'e') (hupper : c ≠ .char 'E') :
    NumberEnds (c :: s) := by
  have hnext := noDigit_cons (s := s).mpr hdigit
  have hne : ∀ {d : CodePoint}, c ≠ d → (c :: s).head? ≠ some d :=
    fun h heq => h (Option.some.inj heq)
  exact ⟨⟨hnext, hne hpoint⟩, hnext, hne hlower, hne hupper⟩

theorem numberEnds_nil : NumberEnds [] := by
  simp [NumberEnds, NoFraction, NoExponent, NoDigit]

theorem numberEnds_spacing (gap : List Space) {s : Text} (h : NumberEnds s) :
    NumberEnds (spacing gap ++ s) := by
  cases gap with
  | nil => exact h
  | cons space gap => cases space <;> exact numberEnds_cons rfl (by decide) (by decide) (by decide)

theorem numberEnds_gap (gap : List Space) {c : Char} (hc : c = ',' ∨ c = ']' ∨ c = '}')
    (s : Text) : NumberEnds (spacing gap ++ .char c :: s) := by
  refine numberEnds_spacing gap ?_
  rcases hc with rfl | rfl | rfl <;>
    exact numberEnds_cons rfl (by decide) (by decide) (by decide)

/-! ## First characters -/

/-- Whether a text begins with a visible character of ASCII other than a closing bracket, as every
    value does. -/
def Opens (s : Text) : Prop :=
  ∃ c rest, s = c :: rest ∧ 33 ≤ c.value ∧ c.value ≤ 126 ∧ c.value ≠ 93

theorem opens_char {c : Char} (h : 33 ≤ c.toNat ∧ c.toNat ≤ 126 ∧ c.toNat ≠ 93) (rest : Text) :
    Opens (.char c :: rest) := ⟨.char c, rest, rfl, h⟩

section Opens

variable {s : Text}

theorem skipSpacing_opens (gap : List Space) (h : Opens s) :
    skipSpacing (spacing gap ++ s) = s := by
  obtain ⟨c, rest, rfl, hlow, -, -⟩ := h
  refine skipSpacing_gap gap ?_ rest
  cases hc : isSpacing c with
  | false => rfl
  | true =>
    obtain ⟨space, rfl⟩ := exists_space hc
    have hvalue : space.char.toNat ≤ 32 := by cases space <;> decide
    simp only [CodePoint.value] at hlow
    omega

theorem Opens.ne_close (h : Opens s) : ∀ left, s ≠ .char ']' :: left := by
  rintro left rfl
  obtain ⟨c, rest, heq, -, -, hc⟩ := h
  cases heq
  exact hc rfl

theorem Opens.not_isBlank (h : Opens s) (gap : List Space) :
    (spacing gap ++ s).isBlank = false := by
  obtain ⟨c, rest, rfl, hlow, hhigh, -⟩ := h
  have hc : c.isBlank = false := by
    simp only [CodePoint.isBlank, CodePoint.within, blankRanges, List.any_cons, List.any_nil,
      Bool.or_false, Bool.or_eq_false_iff, Bool.and_eq_false_iff, decide_eq_false_iff_not]
    omega
  cases hblank : (spacing gap ++ c :: rest).isBlank with
  | false => rfl
  | true =>
    rw [Text.isBlank_iff.mp hblank c (by simp)] at hc
    cases hc

theorem Opens.head_ne_mark (h : Opens s) (gap : List Space) :
    (spacing gap ++ s).head? ≠ some byteOrderMark := by
  intro hmark
  cases gap with
  | nil =>
    obtain ⟨c, rest, rfl, -, hhigh, -⟩ := h
    cases hmark
    exact absurd hhigh (by decide)
  | cons space gap =>
    have hspace : byteOrderMark ∈ spacing [space] :=
      List.mem_singleton.mpr (Option.some.inj hmark).symm
    have hc := isSpacing_of_mem hspace
    cases hc

end Opens

theorem isDigit_range {c : CodePoint} (h : isDigit c = true) : 48 ≤ c.value ∧ c.value ≤ 57 := by
  cases c with
  | surrogate index => cases h
  | char c =>
    have hc : (decide (48 ≤ c.val) && decide (c.val ≤ 57)) = true := h
    rw [Bool.and_eq_true, decide_eq_true_eq, decide_eq_true_eq] at hc
    exact ⟨hc.1, hc.2⟩

theorem exists_first_digit (whole : Whole) (rest : Text) :
    ∃ c s, digitsText whole.toList ++ rest = c :: s ∧ isDigit c = true := by
  cases whole with
  | zero => exact ⟨_, _, rfl, rfl⟩
  | other first nonzero others => exact ⟨_, _, rfl, first.property⟩

/-- A number begins with a digit, or with a minus sign and a digit. -/
theorem exists_first_number (n : Number) (rest : Text) :
    (∃ c s, n.text ++ rest = c :: s ∧ isDigit c = true) ∨
      ∃ c s, n.text ++ rest = .char '-' :: c :: s ∧ isDigit c = true := by
  obtain ⟨c, s, hs, hc⟩ := exists_first_digit n.whole
    (fractionText n.fraction ++ (exponentText n.exponent ++ rest))
  have htext : n.text ++ rest = n.signText ++ (c :: s) := by
    rw [← hs]
    simp [Number.text]
  rw [htext, Number.signText]
  cases n.negative with
  | false => exact Or.inl ⟨c, s, rfl, hc⟩
  | true => exact Or.inr ⟨c, s, rfl, hc⟩

theorem opens_number (n : Number) (rest : Text) : Opens (n.text ++ rest) := by
  rcases exists_first_number n rest with ⟨c, s, hs, hc⟩ | ⟨c, s, hs, -⟩
  · have hrange := isDigit_range hc
    exact ⟨c, s, hs, by omega, by omega, by omega⟩
  · rw [hs]
    exact opens_char (by decide) _

theorem opens_tree (t : Tree) (rest : Text) : Opens (t.text ++ rest) := by
  cases t with
  | number n => exact opens_number n rest
  | bool b => cases b <;> exact opens_char (by decide) _
  | null => exact opens_char (by decide) _
  | string cs => exact opens_char (by decide) _
  | emptyArray gap => exact opens_char (by decide) _
  | array items => exact opens_char (by decide) _
  | emptyObject gap => exact opens_char (by decide) _
  | object members => exact opens_char (by decide) _

theorem opens_key (key : List Character) (behindKey beforeItem : List Space) (rest : Text) :
    Opens (keyText [] key behindKey beforeItem ++ rest) := opens_char (by decide) _

/-! ## Scalars -/

theorem oneOf?_eq_none {α : Type} {words : List (String × α)} {s : Text}
    (h : ∀ word ∈ words, s.dropStart? word.1.toList = none) : oneOf? words s = none := by
  rw [oneOf?, List.findSome?_eq_none_iff]
  intro word hword
  rw [h word hword]
  rfl

theorem dropStart?_of_ne {a : Char} {start : List Char} {c : CodePoint} {s : Text}
    (h : c ≠ .char a) : Text.dropStart? (a :: start) (c :: s) = none := by
  rw [Text.dropStart?, if_neg h]

theorem ne_of_isDigit {c : CodePoint} {a : Char} (hc : isDigit c = true)
    (ha : a.isDigit = false) : c ≠ .char a := by
  rintro rfl
  rw [isDigit, ha] at hc
  cases hc

/-- A number is no word. -/
theorem oneOf?_number (n : Number) (rest : Text) :
    oneOf? keywords (n.text ++ rest) = none ∧ oneOf? constantWords (n.text ++ rest) = none := by
  rcases exists_first_number n rest with ⟨c, s, hs, hc⟩ | ⟨c, s, hs, hc⟩
  · have hne : ∀ {a : Char}, a.isDigit = false → c ≠ .char a := ne_of_isDigit hc
    rw [hs]
    constructor
    · refine oneOf?_eq_none ?_
      simp only [keywords, List.forall_mem_cons]
      exact ⟨dropStart?_of_ne (hne rfl), dropStart?_of_ne (hne rfl), dropStart?_of_ne (hne rfl),
        by simp⟩
    · refine oneOf?_eq_none ?_
      simp only [constantWords, Constant.all, Constant.name, List.map_cons, List.forall_mem_cons]
      exact ⟨dropStart?_of_ne (hne rfl), dropStart?_of_ne (hne rfl), dropStart?_of_ne (hne rfl),
        by simp⟩
  · have hminus : Text.dropStart? "-Infinity".toList (.char '-' :: c :: s) = none := by
      show Text.dropStart? ('I' :: "nfinity".toList) (c :: s) = none
      exact dropStart?_of_ne (ne_of_isDigit hc rfl)
    rw [hs]
    constructor
    · refine oneOf?_eq_none ?_
      simp only [keywords, List.forall_mem_cons]
      exact ⟨rfl, rfl, rfl, by simp⟩
    · refine oneOf?_eq_none ?_
      simp only [constantWords, Constant.all, Constant.name, List.map_cons, List.forall_mem_cons]
      exact ⟨rfl, rfl, hminus, by simp⟩

/-- A number begins with a digit or a minus sign. -/
theorem head?_number_ne {a : Char} (ha : a.isDigit = false) (hminus : a ≠ '-') (n : Number)
    (rest : Text) : (n.text ++ rest).head? ≠ some (.char a) := by
  rcases exists_first_number n rest with ⟨c, s, hs, hc⟩ | ⟨c, s, hs, -⟩
  · rw [hs]
    exact fun heq => ne_of_isDigit hc ha (Option.some.inj heq)
  · rw [hs]
    exact fun heq => hminus (by injection Option.some.inj heq with h; exact h.symm)

theorem scalar_number {n : Number} {rest : Text}
    (h : numberLiteral? (n.text ++ rest) = some (n.literal, rest)) :
    bare (scalar dialect (n.text ++ rest)) =
      if Text.maxIntegerDigits < n.integerLength then .error (.beyond (.digits n.integerLength))
      else .ok (n.value, rest) := by
  have hquote : (n.text ++ rest).head? ≠ some (.char '"') :=
    head?_number_ne rfl (by decide) n rest
  obtain ⟨hkeyword, hconstant⟩ := oneOf?_number n rest
  rw [scalar_other dialect hquote, hkeyword, hconstant]
  simp only [h, literal_value]
  split
  · rename_i hvalue
    split at hvalue
    · rename_i hlong
      cases hvalue
      rw [if_pos hlong]
    · cases hvalue
  · rename_i hvalue
    split at hvalue
    · cases hvalue
    · rename_i hlong
      cases hvalue
      rw [if_neg hlong]

theorem scalar_string_text (cs : List Character) (rest : Text) :
    bare (scalar dialect (stringText cs ++ rest)) = .ok (.str (content cs), rest) := by
  have htext : stringText cs ++ rest =
      .char '"' :: (charactersText cs ++ .char '"' :: rest) := by
    simp [stringText]
  rw [htext, scalar_string, charactersFrom_characters]
  rfl

/-! ## Values -/

theorem value_word {s rest : Text} {v : Value} (levels : Nat)
    (hs : oneOf? keywords (s ++ rest) = some (v, rest))
    (hfirst : ∃ c behind, s = c :: behind ∧ c ≠ .char '"' ∧ c ≠ .char '[' ∧ c ≠ .char '{') :
    bare (value dialect levels (s ++ rest)) = .ok (v, rest) := by
  obtain ⟨c, behind, rfl, hquote, harray, hobject⟩ := hfirst
  have hne : ∀ {d : CodePoint}, c ≠ d → (c :: behind ++ rest).head? ≠ some d :=
    fun h heq => h (Option.some.inj heq)
  rw [value_scalar (hne harray) (hne hobject), scalar_other dialect (hne hquote), hs]

theorem key_text (key : List Character) (behindKey beforeItem : List Space) (rest : Text) :
    keyText [] key behindKey beforeItem ++ rest = .char '"' :: (charactersText key ++
      .char '"' :: (spacing behindKey ++ .char ':' :: (spacing beforeItem ++ rest))) := by
  simp [keyText, stringText]

theorem key_ne_close (key : List Character) (behindKey beforeItem : List Space) (rest : Text) :
    ∀ left, keyText [] key behindKey beforeItem ++ rest ≠ .char '}' :: left := by
  intro left hleft
  rw [key_text] at hleft
  cases hleft

/-- A key with its colon is read, and then what is behind it. -/
theorem pair_key (item : Reader Value) (key : List Character) (gap beforeItem : List Space)
    {s : Text} (hs : Opens s) :
    bare (pair item (keyText [] key gap beforeItem ++ s)) =
      (bare (item s)).map fun (v, left) => ((content key, v), left) := by
  rw [key_text, pair_quote, charactersFrom_characters]
  show behindKey item (content key, _) = _
  rw [behindKey_colon (skipSpacing_gap gap rfl _), skipSpacing_opens beforeItem hs]

theorem skipSpacing_items_last (before : List Space) (item : Tree) (behind : List Space)
    (tail : Text) :
    skipSpacing ((Items.last before item behind).text ++ tail) =
      item.text ++ (spacing behind ++ tail) := by
  rw [← skipSpacing_opens before (opens_tree item _)]
  simp [Items.text]

theorem skipSpacing_items_more (before : List Space) (item : Tree) (behind : List Space)
    (others : Items) (tail : Text) :
    skipSpacing ((Items.more before item behind others).text ++ tail) =
      item.text ++ (spacing behind ++ .char ',' :: (others.text ++ tail)) := by
  rw [← skipSpacing_opens before (opens_tree item _)]
  simp [Items.text]

theorem skipSpacing_members_last (before : List Space) (key : List Character)
    (gap beforeItem : List Space) (item : Tree) (behind : List Space) (tail : Text) :
    skipSpacing ((Members.last before key gap beforeItem item behind).text ++ tail) =
      keyText [] key gap beforeItem ++ (item.text ++ (spacing behind ++ tail)) := by
  rw [← skipSpacing_opens before (opens_key key gap beforeItem _)]
  simp [Members.text, keyText]

theorem skipSpacing_members_more (before : List Space) (key : List Character)
    (gap beforeItem : List Space) (item : Tree) (behind : List Space) (others : Members)
    (tail : Text) :
    skipSpacing ((Members.more before key gap beforeItem item behind others).text ++ tail) =
      keyText [] key gap beforeItem ++
        (item.text ++ (spacing behind ++ .char ',' :: (others.text ++ tail))) := by
  rw [← skipSpacing_opens before (opens_key key gap beforeItem _)]
  simp [Members.text, keyText]

theorem items_ne_close (its : Items) (tail : Text) :
    ∀ left, skipSpacing (its.text ++ tail) ≠ .char ']' :: left := by
  cases its with
  | last before item behind =>
    rw [skipSpacing_items_last]
    exact (opens_tree item _).ne_close
  | more before item behind others =>
    rw [skipSpacing_items_more]
    exact (opens_tree item _).ne_close

theorem members_ne_close (ms : Members) (tail : Text) :
    ∀ left, skipSpacing (ms.text ++ tail) ≠ .char '}' :: left := by
  cases ms with
  | last before key gap beforeItem item behind =>
    rw [skipSpacing_members_last]
    exact key_ne_close key gap beforeItem _
  | more before key gap beforeItem item behind others =>
    rw [skipSpacing_members_more]
    exact key_ne_close key gap beforeItem _

theorem value_number (levels : Nat) {n : Number} {rest : Text}
    (hfits : (Tree.number n).Fits levels) (hrest : NumberEnds rest) :
    bare (value dialect levels (n.text ++ rest)) = .ok (n.value, rest) := by
  have hlong : ¬ Text.maxIntegerDigits < n.integerLength := Nat.not_lt.mpr hfits.2
  have hfirst : ∀ {a : Char}, a.isDigit = false → a ≠ '-' →
      (n.text ++ rest).head? ≠ some (.char a) :=
    fun ha hminus => head?_number_ne ha hminus n rest
  rw [value_scalar (hfirst rfl (by decide)) (hfirst rfl (by decide)),
    scalar_number (numberLiteral?_number n hrest), if_neg hlong]

theorem value_string (levels : Nat) (cs : List Character) (rest : Text) :
    bare (value dialect levels (stringText cs ++ rest)) = .ok (.str (content cs), rest) := by
  have hfirst : ∀ {a : Char}, a ≠ '"' → (stringText cs ++ rest).head? ≠ some (.char a) := by
    intro a ha heq
    injection Option.some.inj heq with h
    exact ha h.symm
  rw [value_scalar (hfirst (by decide)) (hfirst (by decide)), scalar_string_text]

mutual

theorem value_tree : ∀ (t : Tree) {levels : Nat} {rest : Text}, t.Fits levels → NumberEnds rest →
    bare (value dialect levels (t.text ++ rest)) = .ok (t.value, rest)
  | .null, levels, rest, _, _ => value_word levels rfl ⟨_, _, rfl, by decide⟩
  | .bool true, levels, rest, _, _ => value_word levels rfl ⟨_, _, rfl, by decide⟩
  | .bool false, levels, rest, _, _ => value_word levels rfl ⟨_, _, rfl, by decide⟩
  | .number n, levels, rest, hfits, hrest => value_number levels hfits hrest
  | .string cs, levels, rest, _, _ => value_string levels cs rest
  | .emptyArray gap, levels, rest, hfits, _ => by
    cases levels with
    | zero => exact absurd hfits.1 (by simp [Tree.depth])
    | succ levels =>
      have htext : (Tree.emptyArray gap).text ++ rest =
          .char '[' :: (spacing gap ++ .char ']' :: rest) := by
        simp [Tree.text]
      rw [htext, value_array, array_close _ (skipSpacing_gap gap rfl rest)]
      rfl
  | .array items, levels, rest, hfits, _ => by
    cases levels with
    | zero => exact absurd hfits.1 (by simp [Tree.depth])
    | succ levels =>
      have htext : (Tree.array items).text ++ rest =
          .char '[' :: (items.text ++ .char ']' :: rest) := by
        simp [Tree.text]
      rw [htext, value_array, array_items _ (items_ne_close items _),
        items_items items (Tree.fits_array.mp hfits)]
      rfl
  | .emptyObject gap, levels, rest, hfits, _ => by
    cases levels with
    | zero => exact absurd hfits.1 (by simp [Tree.depth])
    | succ levels =>
      have htext : (Tree.emptyObject gap).text ++ rest =
          .char '{' :: (spacing gap ++ .char '}' :: rest) := by
        simp [Tree.text]
      rw [htext, value_object, object_close _ (skipSpacing_gap gap rfl rest)]
      rfl
  | .object members, levels, rest, hfits, _ => by
    cases levels with
    | zero => exact absurd hfits.1 (by simp [Tree.depth])
    | succ levels =>
      have htext : (Tree.object members).text ++ rest =
          .char '{' :: (members.text ++ .char '}' :: rest) := by
        simp [Tree.text]
      rw [htext, value_object, object_pairs _ (members_ne_close members _),
        pairs_members members (Tree.fits_object.mp hfits)]
      show Except.ok (Value.obj (Json.members _), rest) = _
      rw [members_eq_settled]
      rfl

theorem items_items : ∀ (its : Items) {levels : Nat} {rest : Text}, its.Fits levels →
    bare (items (value dialect levels) (skipSpacing (its.text ++ .char ']' :: rest))) =
      .ok (its.values, rest)
  | .last before item behind, levels, rest, hfits => by
    have hitem := value_tree item (Items.fits_last.mp hfits)
      (numberEnds_gap behind (Or.inr (Or.inl rfl)) rest)
    rw [skipSpacing_items_last, sequence_of_ok (items_eq _) hitem,
      behindElement_close (skipSpacing_gap behind rfl rest)]
    rfl
  | .more before item behind others, levels, rest, hfits => by
    obtain ⟨hfirst, hothers⟩ := Items.fits_more.mp hfits
    have hitem := value_tree item hfirst
      (numberEnds_gap behind (Or.inl rfl) (others.text ++ .char ']' :: rest))
    rw [skipSpacing_items_more, sequence_of_ok (items_eq _) hitem,
      behindElement_comma (by decide) (skipSpacing_gap behind rfl _), items_items others hothers]
    rfl

theorem pairs_members : ∀ (ms : Members) {levels : Nat} {rest : Text}, ms.Fits levels →
    bare (pairs (value dialect levels) (skipSpacing (ms.text ++ .char '}' :: rest))) =
      .ok (ms.pairs, rest)
  | .last before key gap beforeItem item behind, levels, rest, hfits => by
    have hitem := value_tree item (Members.fits_last.mp hfits)
      (numberEnds_gap behind (Or.inr (Or.inr rfl)) rest)
    have hpair := pair_key (value dialect levels) key gap beforeItem
      (opens_tree item (spacing behind ++ .char '}' :: rest))
    rw [hitem] at hpair
    rw [skipSpacing_members_last, sequence_of_ok (pairs_eq _) hpair,
      behindElement_close (skipSpacing_gap behind rfl rest)]
    rfl
  | .more before key gap beforeItem item behind others, levels, rest, hfits => by
    obtain ⟨hfirst, hothers⟩ := Members.fits_more.mp hfits
    have hitem := value_tree item hfirst
      (numberEnds_gap behind (Or.inl rfl) (others.text ++ .char '}' :: rest))
    have hpair := pair_key (value dialect levels) key gap beforeItem
      (opens_tree item (spacing behind ++ .char ',' :: (others.text ++ .char '}' :: rest)))
    rw [hitem] at hpair
    rw [skipSpacing_members_more, sequence_of_ok (pairs_eq _) hpair,
      behindElement_comma (by decide) (skipSpacing_gap behind rfl _), pairs_members others hothers]
    rfl

end

end TextTidy.Json
