import TextTidy.Proofs.Css.Repair
import TextTidy.Proofs.Css.Squeeze

/-!
# Stylesheets in sequence

A stylesheet that ends with its last closing brace, blanks aside, does not touch what is written
behind it: no scan looks across the brace, and every reader stands behind it as at the start of a
text. So the rules, the correction and the compact form of two stylesheets in a row are those of the
two.
-/

namespace TextTidy.Css

/-- Whether a text ends with a closing brace, blanks aside. -/
def endsClosed (s : Text) : Bool := (Text.trimEnd s).getLast? == some (.char '}')

theorem exists_trimEnd (s : Text) : ∃ gap, s = Text.trimEnd s ++ gap ∧ Text.isBlank gap = true := by
  have hback := Text.leadingBlanks_append_trimStart s.reverse
  refine ⟨(Text.leadingBlanks s.reverse).reverse, ?_, ?_⟩
  · rw [Text.trimEnd, ← List.reverse_append, hback, List.reverse_reverse]
  · rw [Text.isBlank_iff]
    intro c hc
    exact Text.isBlank_iff.mp (Text.isBlank_leadingBlanks _) c (List.mem_reverse.mp hc)

theorem endsClosed_iff {s : Text} :
    endsClosed s = true ↔
      ∃ front gap, s = front ++ .char '}' :: gap ∧ Text.isBlank gap = true := by
  constructor
  · intro h
    obtain ⟨gap, hs, hgap⟩ := exists_trimEnd s
    obtain ⟨front, hfront⟩ := List.getLast?_eq_some_iff.mp (eq_of_beq h)
    refine ⟨front, gap, ?_, hgap⟩
    rw [hfront, List.append_assoc] at hs
    exact hs
  · rintro ⟨front, gap, rfl, hgap⟩
    have hsplit : front ++ CodePoint.char '}' :: gap = (front ++ [.char '}']) ++ gap := by simp
    rw [endsClosed, hsplit, Text.trimEnd_append hgap, Text.trimEnd_concat (by decide),
      List.getLast?_concat]
    exact beq_self_eq_true _

/-! ## Scans -/

section Seam

variable {a : Text}

section Scan

variable {α : Type} {p : Pattern α}

/-- A scan that halts at delimiters and takes no notice of gaps divides two stylesheets in a row as
it divides each one. -/
theorem pieces_seam (hp : p.Halts isDelimiter) (hgaps : p.IgnoresGaps) (ha : endsClosed a = true)
    (b : Text) : p.pieces (a ++ b) = p.pieces a ++ p.pieces b := by
  obtain ⟨front, gap, rfl, hgap⟩ := endsClosed_iff.mp ha
  have hclose : isDelimiter (.char '}') = true := by decide
  have halone : p.pieces gap = gap.map .plain := by
    have hnil : p.pieces [] = [] := rfl
    have := hgaps.pieces_gap hgap []
    rwa [List.append_nil, hnil, List.append_nil] at this
  calc p.pieces (front ++ .char '}' :: gap ++ b)
      = p.pieces (front ++ .char '}' :: (gap ++ b)) := by rw [List.append_assoc]; rfl
    _ = p.pieces (front ++ [.char '}']) ++ (gap.map .plain ++ p.pieces b) := by
        rw [hp.pieces_append hclose, hgaps.pieces_gap hgap]
    _ = p.pieces (front ++ .char '}' :: gap) ++ p.pieces b := by
        rw [hp.pieces_append hclose front gap, halone, List.append_assoc]

theorem findAll_seam (hp : p.Halts isDelimiter) (hgaps : p.IgnoresGaps) (ha : endsClosed a = true)
    (b : Text) : p.findAll (a ++ b) = p.findAll a ++ p.findAll b := by
  rw [Pattern.findAll, pieces_seam hp hgaps ha, List.filterMap_append]
  rfl

theorem replace_seam {write : α → Text} (hp : p.Halts isDelimiter) (hgaps : p.IgnoresGaps)
    (ha : endsClosed a = true) (b : Text) :
    p.replace write (a ++ b) = p.replace write a ++ p.replace write b := by
  rw [Pattern.replace, pieces_seam hp hgaps ha, List.flatMap_append]
  rfl

end Scan

theorem lacksSemicolon_seam (ha : endsClosed a = true) (b : Text) :
    lacksSemicolon (a ++ b) = (lacksSemicolon a || lacksSemicolon b) := by
  rw [lacksSemicolon, Pattern.occursIn,
    findAll_seam unterminated_halts unterminated_ignoresGaps ha b, lacksSemicolon, lacksSemicolon,
    Pattern.occursIn, Pattern.occursIn]
  cases unterminated.findAll a <;> simp

theorem typos_seam (ha : endsClosed a = true) (b : Text) :
    typos (a ++ b) = typos a ++ typos b := by
  rw [typos, findAll_seam propertyName_halts propertyName_ignoresGaps ha b, List.filterMap_append]
  rfl

theorem insertSemicolons_seam (ha : endsClosed a = true) (b : Text) :
    insertSemicolons (a ++ b) = insertSemicolons a ++ insertSemicolons b :=
  replace_seam unterminated_halts unterminated_ignoresGaps ha b

theorem correctSpelling_seam (ha : endsClosed a = true) (b : Text) :
    correctSpelling (a ++ b) = correctSpelling a ++ correctSpelling b :=
  replace_seam misspelled_halts misspelled_ignoresGaps ha b

/-! ## Readers -/

/-- Behind a closing brace a reader stands outside all blocks, whatever it has read before. -/
theorem wellFormedFrom_append_closing (reading : Reading) (s rest : Text) :
    wellFormedFrom reading (s ++ .char '}' :: rest) =
      (wellFormedFrom reading (s ++ [.char '}']) && wellFormedFrom .outside rest) := by
  induction s generalizing reading with
  | nil => cases reading <;> simp [wellFormedFrom]
  | cons c s ih =>
    by_cases hopen : c = .char '{'
    · subst hopen
      cases reading <;> exact ih (.block true [])
    · cases reading with
      | outside =>
        rw [List.cons_append, List.cons_append, wellFormedFrom_outside_cons hopen,
          wellFormedFrom_outside_cons hopen]
        exact ih .outside
      | block sound part =>
        cases hc : isDelimiter c with
        | false =>
          rw [List.cons_append, List.cons_append, wellFormedFrom_block_cons hc,
            wellFormedFrom_block_cons hc]
          exact ih (.block sound (part ++ [c]))
        | true =>
          rcases isDelimiter_iff.mp hc with rfl | rfl | rfl
          · exact ih (.block (sound && partOk part) [])
          · exact absurd rfl hopen
          · simp only [List.cons_append, wellFormedFrom, ih .outside, Bool.and_assoc]

theorem wellFormed_seam (ha : endsClosed a = true) (b : Text) :
    wellFormed (a ++ b) = (wellFormed a && wellFormed b) := by
  obtain ⟨front, gap, rfl, hgap⟩ := endsClosed_iff.mp ha
  have hrun := isRun_of_isBlank hgap
  have hread : ∀ s, wellFormed (front ++ .char '}' :: (gap ++ s)) =
      (wellFormedFrom .outside (front ++ [.char '}']) && wellFormed s) := by
    intro s
    rw [wellFormed_eq_wellFormedFrom, wellFormedFrom_append_closing,
      wellFormedFrom_outside_run hrun, wellFormed_eq_wellFormedFrom]
  have hnil : wellFormed [] = true := rfl
  have halone := hread []
  rw [List.append_nil, hnil, Bool.and_true] at halone
  rw [List.append_assoc, List.cons_append, hread, halone]

theorem balance_seam (ha : (balance a).balanced = true) (b : Text) :
    balance (a ++ b) = balance b := by
  rw [balance, balanceFrom_append, ← balance, balanced_iff.mp ha]
  rfl

/-- Two stylesheets in a row are valid exactly if both are, and have the warnings of both. -/
theorem validate_seam (hbalanced : (balance a).balanced = true) (ha : endsClosed a = true)
    (b : Text) :
    ((validate (a ++ b)).isValid = true ↔
        (validate a).isValid = true ∧ (validate b).isValid = true) ∧
      (validate (a ++ b)).warnings = (validate a).warnings ++ (validate b).warnings := by
  constructor
  · rw [isValid_iff, isValid_iff, isValid_iff, balance_seam hbalanced, lacksSemicolon_seam ha,
      wellFormed_seam ha, balanced_iff.mp hbalanced, Bool.or_eq_false_iff, Bool.and_eq_true]
    constructor
    · rintro ⟨hbalance, ⟨hlacks, hlacks'⟩, hformat, hformat'⟩
      exact ⟨⟨rfl, hlacks, hformat⟩, hbalance, hlacks', hformat'⟩
    · rintro ⟨⟨-, hlacks, hformat⟩, hbalance, hlacks', hformat'⟩
      exact ⟨hbalance, ⟨hlacks, hlacks'⟩, hformat, hformat'⟩
  · rw [validate_warnings, validate_warnings, validate_warnings, typos_seam ha, List.map_append]

/-! ## Compact forms -/

/-- Behind a tight mark a gap makes no difference. -/
theorem squeezeFrom_after (gap : Bool) (s : Text) :
    squeezeFrom true gap s = squeezeFrom true false s := by
  cases s with
  | nil => rfl
  | cons c s => simp [squeezeFrom]

theorem closing_mem_squeezeFrom (after gap : Bool) (s : Text) :
    .char '}' ∈ squeezeFrom after gap (s ++ [.char '}']) := by
  induction s generalizing after gap with
  | nil =>
    rw [List.nil_append, squeezeFrom_tight (by decide) (by rfl)]
    exact List.mem_cons_self
  | cons c s ih =>
    rw [List.cons_append]
    rcases squeezeFrom_cases after gap c (s ++ [.char '}']) with ⟨-, h⟩ | ⟨-, -, h⟩ | ⟨-, -, h⟩ |
      ⟨-, -, -, -, -, h⟩
    · rw [h]
      exact ih after true
    · rw [h]
      exact ih true false
    · rw [h]
      exact List.mem_cons_of_mem c (ih (isTight c) false)
    · rw [h]
      exact List.mem_cons_of_mem _ (List.mem_cons_of_mem c (ih false false))

/-- An important mark ends before a closing brace. -/
theorem startsWith_append_of_closing_mem {s : Text} (hs : .char '}' ∈ s) (more : Text) :
    Text.startsWith (s ++ more) importantMark = Text.startsWith s importantMark := by
  rw [Bool.eq_iff_iff, Text.startsWith, Text.startsWith, List.isPrefixOf_iff_prefix,
    List.isPrefixOf_iff_prefix]
  constructor
  · intro h
    rcases List.prefix_or_prefix_of_prefix h (List.prefix_append s more) with hmark | hmark
    · exact hmark
    · have hmem : CodePoint.char '}' ∈ importantMark := hmark.subset hs
      exact absurd hmem (by decide)
  · intro h
    exact h.trans (List.prefix_append s more)

/-- The compact form may be made in two parts behind a closing brace. -/
theorem squeezeFrom_append_closing (after gap : Bool) (s rest : Text) :
    squeezeFrom after gap (s ++ .char '}' :: rest) =
      squeezeFrom after gap (s ++ [.char '}']) ++ squeezeFrom true false rest := by
  induction s generalizing after gap with
  | nil =>
    have hbrace : ∀ t, squeezeFrom after gap (.char '}' :: t) =
        .char '}' :: squeezeFrom true false t := by
      intro t
      exact squeezeFrom_tight (by decide) (by rfl) after gap
    rw [List.nil_append, List.nil_append, hbrace, hbrace]
    rfl
  | cons c s ih =>
    have hcloses : closes (s ++ .char '}' :: rest) = closes (s ++ [.char '}']) :=
      closes_append fun _ => (closes_cons rest).trans (closes_cons []).symm
    have hmark : Text.startsWith (c :: (squeezeFrom (isTight c) false (s ++ [.char '}']) ++
        squeezeFrom true false rest)) importantMark =
        Text.startsWith (c :: squeezeFrom (isTight c) false (s ++ [.char '}'])) importantMark :=
      startsWith_append_of_closing_mem
        (List.mem_cons_of_mem c (closing_mem_squeezeFrom _ _ s)) _
    simp only [List.cons_append, squeezeFrom, hcloses, ih, hmark]
    split
    · rfl
    · split
      · rfl
      · split <;> rfl

theorem compact_seam (ha : endsClosed a = true) (b : Text) :
    compact (a ++ b) = compact a ++ compact b := by
  obtain ⟨front, gap, rfl, hgap⟩ := endsClosed_iff.mp ha
  have hbehind : ∀ s, squeezeFrom true false (gap ++ s) = squeezeFrom true false s := by
    intro s
    rw [squeezeFrom_gap hgap, squeezeFrom_after]
  have hnil := hbehind []
  rw [List.append_nil, squeezeFrom] at hnil
  simp only [compact_eq_squeezeFrom]
  rw [List.append_assoc, List.cons_append, squeezeFrom_append_closing, hbehind,
    squeezeFrom_append_closing true false front gap, hnil, List.append_nil]

/-! ## Corrections -/

/-- The semicolon pass writes nothing behind the last delimiter of a text. -/
theorem exists_insertSemicolons_concat {d : CodePoint} (hd : isDelimiter d = true) (s : Text) :
    ∃ t, insertSemicolons (s ++ [d]) = t ++ [d] := by
  induction s using run_induction with
  | last run hrun =>
    rcases insertSemicolons_run hrun hd with ⟨-, h⟩ | ⟨pre, decl, more, -, -, -, -, h⟩
    · exact ⟨run, h⟩
    · exact ⟨pre ++ decl ++ .char ';' :: more, by rw [h]; simp⟩
  | more run e rest hrun he ih =>
    obtain ⟨t, ht⟩ := ih
    refine ⟨insertSemicolons (run ++ [e]) ++ t, ?_⟩
    rw [List.append_assoc, List.cons_append, insertSemicolons_append he, ht, List.append_assoc]

theorem endsClosed_insertSemicolons (ha : endsClosed a = true) :
    endsClosed (insertSemicolons a) = true := by
  obtain ⟨front, gap, rfl, hgap⟩ := endsClosed_iff.mp ha
  obtain ⟨t, ht⟩ := exists_insertSemicolons_concat (d := .char '}') (by decide) front
  have hkept : insertSemicolons gap = gap := by
    have hnil : insertSemicolons [] = [] := rfl
    have hgaps : insertSemicolons (gap ++ []) = gap ++ insertSemicolons [] :=
      unterminated_ignoresGaps.replace_gap hgap []
    rwa [List.append_nil, hnil, List.append_nil] at hgaps
  refine endsClosed_iff.mpr ⟨t, gap, ?_, hgap⟩
  rw [insertSemicolons_append (by decide), ht, hkept, List.append_assoc]
  rfl

/-- Behind a balanced text the open blocks are those of the rest. -/
theorem closeBlocks_append {s : Text} (hs : balance s = ⟨0, false⟩) (t : Text) :
    closeBlocks (s ++ t) = s ++ closeBlocks t := by
  have hbalance := balance_seam (balanced_iff.mpr hs) t
  cases hextra : (balance t).extra with
  | true => rw [closeBlocks_of_extra hextra, closeBlocks_of_extra (by rw [hbalance, hextra])]
  | false =>
    rw [closeBlocks_of_not_extra hextra, closeBlocks_of_not_extra (by rw [hbalance, hextra]),
      hbalance, List.append_assoc]

theorem corrected_seam (hbalanced : (balance a).balanced = true) (ha : endsClosed a = true)
    (b : Text) : corrected (a ++ b) = corrected a ++ corrected b := by
  have hbalance : balance (correctSpelling (insertSemicolons a)) = ⟨0, false⟩ := by
    rw [(correctSpelling_alike _).balance_eq, balance_insertSemicolons, balanced_iff.mp hbalanced]
  calc corrected (a ++ b)
      = closeBlocks (correctSpelling (insertSemicolons a) ++
          correctSpelling (insertSemicolons b)) := by
        rw [corrected, insertSemicolons_seam ha,
          correctSpelling_seam (endsClosed_insertSemicolons ha)]
    _ = correctSpelling (insertSemicolons a) ++ corrected b := closeBlocks_append hbalance _
    _ = corrected a ++ corrected b := by
        rw [corrected, corrected, closeBlocks_of_balanced hbalance]

end Seam

/-- A balanced stylesheet that ends with a closing brace and any text behind it are validated,
compacted and corrected each on its own. -/
theorem stylesheets_in_sequence (a b : Text) (hbalanced : (balance a).balanced = true)
    (ha : endsClosed a = true) :
    ((validate (a ++ b)).isValid = true ↔
        (validate a).isValid = true ∧ (validate b).isValid = true) ∧
      (validate (a ++ b)).warnings = (validate a).warnings ++ (validate b).warnings ∧
      compact (a ++ b) = compact a ++ compact b ∧
      (correct (a ++ b)).text = (correct a).text ++ (correct b).text := by
  obtain ⟨hvalid, hwarnings⟩ := validate_seam hbalanced ha b
  exact ⟨hvalid, hwarnings, compact_seam ha b, corrected_seam hbalanced ha b⟩

/-- A stylesheet with blanks at its end, before a text that begins with a closing brace. -/
theorem stylesheets_in_sequence_closing_brace :
    (balance (Text.ofString "a\x7bcolr:b\x7d \n")).balanced = true ∧
      endsClosed (Text.ofString "a\x7bcolr:b\x7d \n") = true ∧
      (correct (Text.ofString "a\x7bcolr:b\x7d \n" ++ Text.ofString "\x7d:c\x7bd:e")).text =
        (correct (Text.ofString "a\x7bcolr:b\x7d \n")).text ++
          (correct (Text.ofString "\x7d:c\x7bd:e")).text := by
  have hbalanced : (balance (Text.ofString "a\x7bcolr:b\x7d \n")).balanced = true := by decide
  have hclosed : endsClosed (Text.ofString "a\x7bcolr:b\x7d \n") = true := by decide
  obtain ⟨-, -, -, hcorrected⟩ :=
    stylesheets_in_sequence _ (Text.ofString "\x7d:c\x7bd:e") hbalanced hclosed
  exact ⟨hbalanced, hclosed, hcorrected⟩

end TextTidy.Css
