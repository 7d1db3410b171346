import TextTidy.Proofs.Css.CompactForm
import TextTidy.Proofs.Css.Format

/-!
# Spaces that compaction keeps

In a selector a gap may be a combinator, and in a value it may set two parts apart. Compaction asks
for the characters at the two ends of a gap, not for what they mean there: it keeps one space unless
a tight mark stands at an end, or an important mark begins behind the gap. So the gap before a
pseudo-class is lost like the one behind the colon of a declaration, and a sum loses the gaps that a
difference keeps.
-/

namespace TextTidy.Css

/-- A gap of a text, with what is around it. -/
structure Gap where
  /-- The text before the character that the gap follows. -/
  front : Text
  /-- The character that the gap follows. -/
  left : CodePoint
  /-- The gap itself. -/
  blanks : Text
  /-- The character behind the gap. -/
  right : CodePoint
  /-- The text behind that character. -/
  behind : Text
  ne_nil : blanks ≠ []
  isBlank : Text.isBlank blanks = true
  left_ink : left.isBlank = false
  right_ink : right.isBlank = false

namespace Gap

/-- The text that the gap is in. -/
def text (g : Gap) : Text := g.front ++ g.left :: (g.blanks ++ g.right :: g.behind)

/-- Compaction leaves `between` at the place of the gap, which is told by the characters before and
behind it, idle semicolons left out. -/
def Leaves (g : Gap) (between : Text) : Prop :=
  ∃ front behind, compact g.text = front ++ g.left :: (between ++ g.right :: behind) ∧
    inks front = inks (withoutIdle g.front) ∧ inks behind = inks (withoutIdle g.behind)

end Gap

/-! ## Selectors and values -/

/-- The combinators of selectors, but for the gap itself. -/
def isCombinator (c : CodePoint) : Bool := c == .char '>' || c == .char '+' || c == .char '~'

/-- The tight marks but for the colon, which also begins a pseudo-class. -/
def isSeparator (c : CodePoint) : Bool := isDelimiter c || c == .char ',' || isCombinator c

/-- The tight marks that may stand in a value, commas aside. -/
def isValueMark (c : CodePoint) : Bool := c == .char ':' || isCombinator c

/-- The letters; beyond ASCII everything counts as one. -/
def isLetter (c : CodePoint) : Bool := (isNameChar c && c != .char '-') || 128 ≤ c.value

/-- Whether a text begins with a simple selector. -/
def beginsSelector : Text → Bool
  | .char ':' :: c :: _ => isLetter c || c == .char '-'
  | c :: _ => isLetter c || ['.', '#', '[', '*'].any fun mark => c == .char mark
  | [] => false

namespace Gap

/-- The gap stands outside all blocks, between two compound selectors. -/
structure Descendant (g : Gap) : Prop where
  /-- No block is open. -/
  outermost : (balance g.front).missing = 0
  /-- Before the gap a simple selector ends. -/
  left_separator : isSeparator g.left = false
  left_colon : g.left ≠ .char ':'
  /-- Behind the gap there is no other combinator. -/
  right_separator : isSeparator g.right = false
  /-- Another simple selector begins behind the gap. -/
  selector : beginsSelector (g.right :: g.behind) = true

/-- The gap stands in the value of a declaration of an innermost block. -/
inductive InValue (g : Gap) : Prop where
  /-- In the block of the declaration there are `ended` parts before it and `following` ones behind
  it, and in its value `begun` is before the gap and `rest` behind it. -/
  | mk (outer ended name value following post begun rest : Text)
      (htext : g.text = outer ++ .char '{' ::
        (ended ++ (name ++ .char ':' :: value) ++ following ++ .char '}' :: post))
      (hfront : g.front = outer ++ .char '{' :: (ended ++ (name ++ .char ':' :: begun)))
      (hplace : value = begun ++ g.left :: (g.blanks ++ g.right :: rest))
      (hended : Braceless ended) (hends : ended = [] ∨ ∃ parts, ended = parts ++ [.char ';'])
      (hname : IsRun name) (hcolon : .char ':' ∉ name) (hvalue : IsRun value)
      (hfollowing : Braceless following)
      (hfollows : following = [] ∨ ∃ parts, following = .char ';' :: parts)

/-- The gap sets two parts of a value apart. -/
structure PartsValue (g : Gap) : Prop where
  inValue : g.InValue
  /-- No comma is next to the gap, and so none of a list. -/
  left_comma : g.left ≠ .char ','
  right_comma : g.right ≠ .char ','
  /-- No important mark is behind the gap. -/
  mark : Text.startsWith (g.right :: g.behind) importantMark = false

end Gap

theorem isTight_eq_isSeparator (c : CodePoint) :
    isTight c = (isSeparator c || c == .char ':') := by
  rw [Bool.eq_iff_iff, isTight_iff]
  simp only [isSeparator, isCombinator, Bool.or_eq_true, beq_iff_eq, isDelimiter_iff]
  grind

theorem isTight_eq_isValueMark {c : CodePoint} (hrun : isDelimiter c = false)
    (hcomma : c ≠ .char ',') : isTight c = isValueMark c := by
  rw [isTight_eq_isSeparator, isSeparator, isValueMark, hrun, beq_false_of_ne hcomma,
    Bool.false_or, Bool.false_or, Bool.or_comm]

/-! ## What is left of a gap -/

namespace Gap

variable {g : Gap} {between between' : Text}

theorem Leaves.unique (h : g.Leaves between) (h' : g.Leaves between') : between = between' := by
  obtain ⟨front, behind, htext, hfront, hbehind⟩ := h
  obtain ⟨front', behind', htext', hfront', hbehind'⟩ := h'
  obtain ⟨rfl, hrest⟩ :=
    split_unique g.left_ink (htext.symm.trans htext') (hfront.trans hfront'.symm)
  have hinks := congrArg inks hrest
  rw [inks_append, inks_append, inks_cons g.right_ink, inks_cons g.right_ink, hbehind,
    hbehind'] at hinks
  exact (split_unique g.right_ink hrest (List.append_cancel_right hinks)).1

theorem Leaves.mem_compact (h : g.Leaves between) {c : CodePoint} (hc : c ∈ between) :
    c ∈ compact g.text := by
  obtain ⟨front, behind, htext, -, -⟩ := h
  rw [htext]
  simp [hc]

/-- Between characters that are no delimiters, what is left of a gap is what is to stand there. -/
theorem leaves_iff (hleft : isDelimiter g.left = false) (hright : isDelimiter g.right = false) :
    g.Leaves between ↔ between = keptGap g.left g.blanks g.right g.behind := by
  have hsemi : ∀ {c}, isDelimiter c = false → c ≠ .char ';' := by
    rintro c hc rfl
    exact absurd hc (by decide)
  have hcloses : closes (g.left :: (g.blanks ++ g.right :: g.behind)) = false :=
    (closes_gap Text.isBlank_nil g.left_ink _).trans (not_closing_of_not_isDelimiter hleft)
  have hkept : withoutIdle g.text = withoutIdle g.front ++
      g.left :: (g.blanks ++ g.right :: withoutIdle g.behind) := by
    rw [text, withoutIdle_append hcloses, withoutIdle_cons (hsemi hleft),
      withoutIdle_gap g.isBlank, withoutIdle_cons (hsemi hright)]
  have hgap : keptGap g.left g.blanks g.right (withoutIdle g.behind) =
      keptGap g.left g.blanks g.right g.behind := by
    rw [keptGap, keptGap, ← withoutIdle_cons (hsemi hright), startsWith_withoutIdle]
  have hleaves : g.Leaves (keptGap g.left g.blanks g.right g.behind) := by
    obtain ⟨front, behind, htext, hfront, hbehind⟩ :=
      (compact_closelySet g.text).between _ _ _ _ _ hkept g.left_ink g.isBlank g.right_ink
    exact ⟨front, behind, by rw [htext, hgap], hfront, hbehind⟩
  constructor
  · exact fun h => h.unique hleaves
  · rintro rfl
    exact hleaves

/-- Where no important mark is behind it, a gap leaves one space, or nothing at a tight mark. -/
theorem leaves_of_no_mark (hleft : isDelimiter g.left = false)
    (hright : isDelimiter g.right = false)
    (hmark : Text.startsWith (g.right :: g.behind) importantMark = false) :
    (g.Leaves [.char ' '] ↔ isTight g.left = false ∧ isTight g.right = false) ∧
      (g.Leaves [] ↔ isTight g.left = true ∨ isTight g.right = true) := by
  rw [leaves_iff hleft hright, leaves_iff hleft hright, keptGap]
  have hne := g.ne_nil
  cases isTight g.left <;> cases isTight g.right <;> simp [hne, hmark]

end Gap

/-! ## Gaps in selectors -/

theorem not_beginsSelector_important (s : Text) : beginsSelector (.char '!' :: s) = false := rfl

/-- Between two simple selectors a space is kept, unless the second one is a pseudo-class. -/
theorem descendant_gap_kept_iff (g : Gap) (h : g.Descendant) :
    (g.Leaves [.char ' '] ↔ g.right ≠ .char ':') ∧ (g.Leaves [] ↔ g.right = .char ':') := by
  have hrun : ∀ {c}, isSeparator c = false → isDelimiter c = false := by
    intro c hc
    rw [isSeparator, Bool.or_assoc, Bool.or_eq_false_iff] at hc
    exact hc.1
  have hleft : isTight g.left = false := by
    rw [isTight_eq_isSeparator, h.left_separator, beq_false_of_ne h.left_colon, Bool.false_or]
  have hright : isTight g.right = (g.right == .char ':') := by
    rw [isTight_eq_isSeparator, h.right_separator, Bool.false_or]
  have hmark : Text.startsWith (g.right :: g.behind) importantMark = false := by
    rw [← Bool.not_eq_true]
    intro hmark
    have hselector := h.selector
    rw [startsWith_importantMark hmark, not_beginsSelector_important] at hselector
    cases hselector
  have hleaves := Gap.leaves_of_no_mark (hrun h.left_separator) (hrun h.right_separator) hmark
  simpa [hleft, hright] using hleaves

/-- The gap in `a .hover`, or in what this becomes with another mark before the name. -/
def hoverGap (mark : Char) (hmark : (CodePoint.char mark).isBlank = false) : Gap where
  front := []
  left := .char 'a'
  blanks := [.char ' ']
  right := .char mark
  behind := Text.ofString "hover\x7bb:c;\x7d"
  ne_nil := by simp
  isBlank := by decide
  left_ink := by decide
  right_ink := hmark

/-- Before a class the space is kept. -/
theorem descendant_gap_kept_iff_class :
    (hoverGap '.' (by decide)).text = Text.ofString "a .hover\x7bb:c;\x7d" ∧
      (hoverGap '.' (by decide)).Leaves [.char ' '] := by
  have hgap : (hoverGap '.' (by decide)).Descendant := by
    constructor <;> decide
  exact ⟨rfl, (descendant_gap_kept_iff _ hgap).1.mpr (by decide)⟩

/-- Before a pseudo-class the space is lost, and one compound selector is left of two. -/
theorem pseudo_class_gap_lost : ¬ ∀ g : Gap, g.Descendant → g.Leaves [.char ' '] := by
  intro hkept
  have hgap : (hoverGap ':' (by decide)).Descendant := by
    constructor <;> decide
  have hspace : .char ' ' ∉ compact (hoverGap ':' (by decide)).text := by
    decide +kernel
  exact hspace ((hkept _ hgap).mem_compact (List.mem_singleton_self _))

/-! ## Gaps in values -/

/-- The declaration is one of the parts that the rules read, with the gap behind its first colon. -/
theorem Gap.InValue.exists_part {g : Gap} (h : g.InValue) :
    ∃ body ∈ blocks g.text, ∃ name begun rest, .char ':' ∉ name ∧
      name ++ .char ':' :: (begun ++ g.left :: (g.blanks ++ g.right :: rest)) ∈
        Text.splitOn (.char ';') body := by
  obtain ⟨outer, ended, name, value, following, post, begun, rest, htext, -, hplace, hended, hends,
    hname, hcolon, hvalue, hfollowing, hfollows⟩ := h
  have hpart : IsRun (name ++ .char ':' :: value) :=
    isRun_append.mpr ⟨hname, isRun_cons.mpr ⟨by decide, hvalue⟩⟩
  have hbody : Braceless (ended ++ (name ++ .char ':' :: value) ++ following) :=
    braceless_append.mpr ⟨braceless_append.mpr ⟨hended, .of_isRun hpart⟩, hfollowing⟩
  have hmiddle : name ++ .char ':' :: value ∈
      Text.splitOn (.char ';') (name ++ .char ':' :: value ++ following) := by
    have hsingle : Text.splitOn (.char ';') (name ++ .char ':' :: value) =
        [name ++ .char ':' :: value] :=
      splitOn_of_not_mem fun hmem => absurd (hpart _ hmem) (by decide)
    rcases hfollows with rfl | ⟨parts, rfl⟩
    · rw [List.append_nil, hsingle]
      exact List.mem_singleton_self _
    · rw [splitOn_append, hsingle]
      exact List.mem_cons_self
  refine ⟨_, htext ▸ mem_blocks hbody outer post, name, begun, rest, hcolon, ?_⟩
  rw [← hplace]
  rcases hends with rfl | ⟨parts, rfl⟩
  · exact hmiddle
  · rw [List.append_assoc, List.append_assoc, List.singleton_append, splitOn_append]
    exact List.mem_append_right _ hmiddle

theorem Gap.InValue.not_isDelimiter {g : Gap} (h : g.InValue) :
    isDelimiter g.left = false ∧ isDelimiter g.right = false := by
  obtain ⟨_, _, _, value, _, _, begun, rest, -, -, hplace, -, -, -, -, hvalue, -, -⟩ := h
  exact ⟨hvalue _ (by simp [hplace]), hvalue _ (by simp [hplace])⟩

/-- Between two parts of a value a space is kept, unless a colon or a combinator of selectors stands
at one end of the gap. -/
theorem value_gap_kept_iff (g : Gap) (h : g.PartsValue) :
    (g.Leaves [.char ' '] ↔ isValueMark g.left = false ∧ isValueMark g.right = false) ∧
      (g.Leaves [] ↔ isValueMark g.left = true ∨ isValueMark g.right = true) := by
  obtain ⟨hleft, hright⟩ := h.inValue.not_isDelimiter
  rw [← isTight_eq_isValueMark hleft h.left_comma, ← isTight_eq_isValueMark hright h.right_comma]
  exact Gap.leaves_of_no_mark hleft hright h.mark

/-- The gap before the operator in `calc(1px - 2px)`, or before another one in its place. -/
def operatorGap (operator : Char) (hink : (CodePoint.char operator).isBlank = false) : Gap where
  front := Text.ofString "a\x7bb:calc(1p"
  left := .char 'x'
  blanks := [.char ' ']
  right := .char operator
  behind := Text.ofString " 2px);\x7d"
  ne_nil := by simp
  isBlank := by decide
  left_ink := by decide
  right_ink := hink

theorem operatorGap_inValue {operator : Char} (hink : (CodePoint.char operator).isBlank = false)
    (hrun : isDelimiter (.char operator) = false) : (operatorGap operator hink).InValue := by
  have hvalue : IsRun (Text.ofString "calc(1px " ++ .char operator :: Text.ofString " 2px)") := by
    refine isRun_append.mpr ⟨?_, isRun_cons.mpr ⟨hrun, ?_⟩⟩ <;> unfold IsRun <;> decide
  have hsemi : Braceless [.char ';'] := braceless_cons.mpr ⟨by decide, .of_isRun isRun_nil⟩
  exact .mk [.char 'a'] [] [.char 'b'] _ [.char ';'] [] (Text.ofString "calc(1p")
    (Text.ofString " 2px)") rfl rfl rfl (.of_isRun isRun_nil) (Or.inl rfl)
    (isRun_of_name (by decide)) (by decide) hvalue hsemi (Or.inr ⟨[], rfl⟩)

theorem operatorGap_partsValue {operator : Char} (hink : (CodePoint.char operator).isBlank = false)
    (hrun : isDelimiter (.char operator) = false) (hcomma : operator ≠ ',')
    (hmark : operator ≠ '!') : (operatorGap operator hink).PartsValue where
  inValue := operatorGap_inValue hink hrun
  left_comma := by simp [operatorGap]
  right_comma := by simpa [operatorGap] using hcomma
  mark := by
    rw [← Bool.not_eq_true]
    intro h
    simpa [operatorGap, hmark] using startsWith_importantMark h

/-- Before a minus sign the space is kept. -/
theorem value_gap_kept_iff_minus :
    (operatorGap '-' (by decide)).text = Text.ofString "a\x7bb:calc(1px - 2px);\x7d" ∧
      (operatorGap '-' (by decide)).PartsValue ∧
      (operatorGap '-' (by decide)).Leaves [.char ' '] := by
  have hgap : (operatorGap '-' (by decide)).PartsValue :=
    operatorGap_partsValue (by decide) (by decide) (by decide) (by decide)
  exact ⟨by decide, hgap, (value_gap_kept_iff _ hgap).1.mpr (by decide)⟩

/-- Before a plus sign the space is lost, although it has a meaning there. -/
theorem plus_gap_lost : ¬ ∀ g : Gap, g.PartsValue → g.Leaves [.char ' '] := by
  intro hkept
  have hgap : (operatorGap '+' (by decide)).PartsValue :=
    operatorGap_partsValue (by decide) (by decide) (by decide) (by decide)
  have hspace : .char ' ' ∉ compact (operatorGap '+' (by decide)).text := by
    decide +kernel
  exact hspace ((hkept _ hgap).mem_compact (List.mem_singleton_self _))

end TextTidy.Css
