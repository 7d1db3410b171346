import TextTidy.Proofs.Css.Alike
import TextTidy.Proofs.Css.CompactForm
import TextTidy.Proofs.Css.Condensed
import TextTidy.Proofs.Css.Lacking
import TextTidy.Proofs.Css.NameScan

/-!
# What the rules find in a compact text

Compaction moves blanks and semicolons only, so it leaves the braces and the parts of all blocks. It
also leaves the names before colons: no name character is next to a blank that goes without a space
in its place, unless a tight mark or an important mark is on the other side, and neither of these
belongs to a name or a word. So three of the four rules find the same before and after.
-/

namespace TextTidy.Css

/-! ## The scan for names -/

/-- What is before a text that does not begin with a name makes no difference to the check. -/
theorem typosBehind_stop {s : Text} (hs : ∀ c ∈ s.head?, isNameChar c = false)
    (before before' : Option CodePoint) : typosBehind before s = typosBehind before' s := by
  cases s with
  | nil => rfl
  | cons c s =>
    have hc := hs c rfl
    rw [typosBehind_cons hc, typosBehind_cons hc]

theorem typosBehind_name_append {name behind : Text} (hchars : ∀ x ∈ name, isNameChar x = true)
    (hbehind : ∀ c ∈ behind.head?, isNameChar c = false) (before : Option CodePoint) :
    typosBehind before (name ++ behind) =
      (if colonFollows behind then (misspeltName before name).toList else []) ++
        typosBehind none behind := by
  cases behind with
  | nil =>
    rw [List.append_nil, (finds_last hchars before).1]
    rfl
  | cons c behind =>
    have hc := hbehind c rfl
    rw [typosBehind_name hchars before hc, typosBehind_cons hc]

/-- Of the character before a name only the class counts. -/
theorem misspeltName_congr {before before' : Option CodePoint}
    (h : before.any isWordChar = before'.any isWordChar) (name : Text) :
    misspeltName before name = misspeltName before' name := by
  cases name with
  | nil => rfl
  | cons c name => rw [misspeltName, misspeltName, atWordEdge, atWordEdge, h]

/-! ## Names in a compact text -/

/-- A name is written as it stands, maybe with a space before it. -/
theorem squeezeFrom_name {name : Text} (hchars : ∀ x ∈ name, isNameChar x = true) (hne : name ≠ [])
    (after gap : Bool) (s : Text) :
    squeezeFrom after gap (name ++ s) =
      (if gap && !after then [.char ' '] else []) ++ (name ++ squeezeFrom false false s) := by
  induction name generalizing after gap with
  | nil => exact absurd rfl hne
  | cons c name ih =>
    obtain ⟨hc, htail⟩ := List.forall_mem_cons.mp hchars
    have htight : isTight c = false := not_of_disjoint not_isNameChar_of_isTight hc
    have hmark : ∀ t, Text.startsWith (c :: t) importantMark = false := by
      intro t
      rw [← Bool.not_eq_true]
      intro h
      rw [startsWith_importantMark h] at hc
      exact absurd hc (by decide)
    have hrest : squeezeFrom false false (name ++ s) = name ++ squeezeFrom false false s := by
      cases name with
      | nil => rfl
      | cons d name => exact ih htail (by simp) false false
    rw [List.cons_append, squeezeFrom_char (not_isBlank_of_isNameChar hc) htight, hmark, hrest,
      Bool.not_false, Bool.and_true]
    split <;> rfl

theorem colonFollows_squeezeFrom (after gap : Bool) (s : Text) :
    colonFollows (squeezeFrom after gap s) = colonFollows s := by
  induction s generalizing after gap with
  | nil => rfl
  | cons c s ih =>
    have hkept : ∀ t, c.isBlank = false → colonFollows (c :: t) = colonFollows (c :: s) := by
      intro t hc
      rw [colonFollows_cons, colonFollows_cons, hc]
      rfl
    rcases squeezeFrom_cases after gap c s with ⟨hc, h⟩ | ⟨rfl, hcloses, h⟩ | ⟨hc, -, h⟩ |
      ⟨-, -, hc, -, -, h⟩
    · rw [h, ih, colonFollows_cons, hc, if_pos rfl]
    · obtain ⟨blanks, rest, rfl, hblanks⟩ := closes_iff.mp hcloses
      rw [h, squeezeFrom_closing hblanks]
      rfl
    · rw [h, hkept _ hc]
    · rw [h, colonFollows_cons, if_pos (by decide), hkept _ hc]

/-- Where no name goes on, the pass does not make one go on. -/
theorem not_isNameChar_head?_squeezeFrom {s : Text} (hs : ∀ c ∈ s.head?, isNameChar c = false) :
    ∀ c ∈ (squeezeFrom false false s).head?, isNameChar c = false := by
  intro x hx
  cases s with
  | nil => cases hx
  | cons c s =>
    rcases squeezeFrom_cases false false c s with ⟨-, h⟩ | ⟨-, hcloses, h⟩ | ⟨-, -, h⟩ | ⟨hgap, -⟩
    · rw [h, squeezeFrom_eq_setFrom] at hx
      rcases head?_setFrom_gap hx with hblank | htight | rfl
      · exact not_isNameChar_of_isBlank hblank
      · exact not_isNameChar_of_isTight htight
      · decide
    · obtain ⟨blanks, rest, rfl, hblanks⟩ := closes_iff.mp hcloses
      rw [h, squeezeFrom_closing hblanks] at hx
      obtain rfl := Option.some.inj hx
      decide
    · rw [h] at hx
      obtain rfl := Option.some.inj hx
      exact hs c rfl
    · cases hgap

/-- How the characters before a place of a text and before the place that the pass has reached go
together, when the pass is in the state that `after` and `gap` tell. -/
structure SameEdge (after gap : Bool) (before before' : Option CodePoint) : Prop where
  /-- Behind a tight mark no word goes on. -/
  tight : after = true → before'.any isWordChar = false
  /-- Behind a gap no word goes on. -/
  blank : gap = true → before.any isWordChar = false
  /-- Where there was no gap, a word goes on in both texts or in neither. -/
  same : gap = false → before'.any isWordChar = before.any isWordChar

/-- Behind a character that the pass has just written. -/
theorem SameEdge.kept (c : CodePoint) : SameEdge (isTight c) false (some c) (some c) where
  tight := not_isWordChar_of_isTight
  blank h := by cases h
  same _ := rfl

/-- The induction step at a character that does not belong to a name. -/
theorem typosBehind_squeezeFrom_cons {c : CodePoint} (hc : isNameChar c = false) {s : Text}
    (ih : ∀ {after gap before before'}, SameEdge after gap before before' →
      typosBehind before' (squeezeFrom after gap s) = typosBehind before s)
    {after gap : Bool} {before before' : Option CodePoint} (h : SameEdge after gap before before') :
    typosBehind before' (squeezeFrom after gap (c :: s)) = typosBehind before (c :: s) := by
  rw [typosBehind_cons hc]
  rcases squeezeFrom_cases after gap c s with ⟨hblank, hs⟩ | ⟨rfl, hcloses, hs⟩ | ⟨-, -, hs⟩ |
    ⟨-, -, -, htight, -, hs⟩
  · rw [hs]
    exact ih ⟨h.tight, fun _ => not_isWordChar_of_isBlank hblank, fun hgap => by cases hgap⟩
  · -- the brace comes at once, and so the semicolon does not matter
    have hhead : ∀ x ∈ (squeezeFrom true false s).head?, isNameChar x = false := by
      obtain ⟨blanks, rest, rfl, hblanks⟩ := closes_iff.mp hcloses
      rw [squeezeFrom_closing hblanks]
      intro x hx
      obtain rfl := Option.some.inj hx
      decide
    rw [hs, typosBehind_stop hhead before' (some (.char ';'))]
    exact ih (.kept (.char ';'))
  · rw [hs, typosBehind_cons hc]
    exact ih (.kept c)
  · have hkept := SameEdge.kept c
    rw [htight] at hkept
    rw [hs, typosBehind_cons (by decide), typosBehind_cons hc]
    exact ih hkept

/-- The check finds the same names in a text and in what the pass makes of it. -/
theorem typosBehind_squeezeFrom (s : Text) {after gap : Bool} {before before' : Option CodePoint}
    (h : SameEdge after gap before before') :
    typosBehind before' (squeezeFrom after gap s) = typosBehind before s := by
  induction s using Text.span_induction isNameChar generalizing after gap before before' with
  | last name hchars =>
    rw [(finds_last hchars before).1]
    by_cases hne : name = []
    · rw [hne]
      rfl
    · have hname := squeezeFrom_name hchars hne after gap []
      rw [List.append_nil, squeezeFrom, List.append_nil] at hname
      rw [hname]
      split
      · rw [List.singleton_append, typosBehind_cons (by decide), (finds_last hchars _).1]
      · rw [List.nil_append, (finds_last hchars _).1]
  | more name c s hchars hc ih =>
    by_cases hne : name = []
    · rw [hne]
      exact typosBehind_squeezeFrom_cons hc ih h
    · have hhead : ∀ x ∈ (c :: s).head?, isNameChar x = false := by simpa using hc
      have hrest : typosBehind none (squeezeFrom false false (c :: s)) = typosBehind none (c :: s) :=
        typosBehind_squeezeFrom_cons hc ih
          ⟨fun _ => rfl, fun _ => rfl, fun _ => rfl⟩
      have hname : ∀ before', typosBehind before' (name ++ squeezeFrom false false (c :: s)) =
          (if colonFollows (c :: s) then (misspeltName before' name).toList else []) ++
            typosBehind none (c :: s) := by
        intro before'
        rw [typosBehind_name_append hchars (not_isNameChar_head?_squeezeFrom hhead),
          colonFollows_squeezeFrom, hrest]
      rw [squeezeFrom_name hchars hne, typosBehind_name_append hchars hhead]
      cases gap with
      | false =>
        rw [Bool.false_and, if_neg Bool.false_ne_true, List.nil_append, hname,
          misspeltName_congr (h.same rfl)]
      | true =>
        have hblank := h.blank rfl
        cases after with
        | true =>
          have hsame := (h.tight rfl).trans hblank.symm
          rw [Bool.not_true, Bool.and_false, if_neg Bool.false_ne_true, List.nil_append, hname,
            misspeltName_congr hsame]
        | false =>
          have hsame : (some (CodePoint.char ' ')).any isWordChar = before.any isWordChar := by
            rw [hblank]
            decide
          rw [Bool.not_false, Bool.and_true, if_pos rfl, List.singleton_append,
            typosBehind_cons (by decide), hname, misspeltName_congr hsame]

/-- Compaction makes no name a known misspelling, and hides none. -/
theorem typos_compact (s : Text) : typos (compact s) = typos s := by
  rw [compact_eq_squeezeFrom]
  exact typosBehind_squeezeFrom s ⟨fun _ => rfl, fun _ => rfl, fun _ => rfl⟩

/-! ## The rules -/

theorem warnings_of_succeeded {raw : Text} (h : (tidy raw).succeeded = true) :
    ∃ s, (tidy raw).output = compact s ∧ (tidy raw).warnings = (validate s).warnings := by
  rcases tidy_cases raw with ⟨-, houtcome⟩ | ⟨-, -, houtcome⟩ | ⟨-, -, -, houtcome⟩ |
    ⟨-, -, -, houtcome⟩
  · rw [houtcome] at h
    cases h
  · exact ⟨_, by rw [houtcome], by rw [houtcome]⟩
  · exact ⟨_, by rw [houtcome], by rw [houtcome]⟩
  · rw [houtcome] at h
    cases h

/-- Compaction is invisible to the rules on braces, on the form of declarations and on property
names. So the warnings about a stylesheet that was compacted are what the last of these rules finds
in the output. -/
theorem compact_unseen_by_rules (s raw : Text) :
    Rule.braceBalance.check (compact s) = Rule.braceBalance.check s ∧
      Rule.declarationFormat.check (compact s) = Rule.declarationFormat.check s ∧
      Rule.propertyTypos.check (compact s) = Rule.propertyTypos.check s ∧
      ((tidy raw).succeeded = true →
        (tidy raw).warnings =
          (Rule.propertyTypos.check (tidy raw).output).map Diagnostic.message) := by
  have halike := (compact_condensed s).alike
  refine ⟨?_, ?_, ?_, fun h => ?_⟩
  · simp only [Rule.braceBalance, Rule.reporting, halike.balance_eq]
  · simp only [Rule.declarationFormat, Rule.reporting, halike.wellFormed_eq]
  · simp only [Rule.propertyTypos, typos_compact]
  · obtain ⟨t, houtput, hwarnings⟩ := warnings_of_succeeded h
    rw [houtput, hwarnings, validate_warnings]
    simp only [Rule.propertyTypos, typos_compact, List.map_map]
    rfl

/-- A misspelling behind a gap is reported, and the output has it without the gap. -/
theorem compact_unseen_by_rules_misspelt :
    (tidy (Text.ofString "a \x7b colr : b ; x-colr : c ; \x7d")).succeeded = true ∧
      (tidy (Text.ofString "a \x7b colr : b ; x-colr : c ; \x7d")).output =
        Text.ofString "a\x7bcolr:b;x-colr:c\x7d" ∧
      (tidy (Text.ofString "a \x7b colr : b ; x-colr : c ; \x7d")).warnings =
        (Rule.propertyTypos.check (Text.ofString "a\x7bcolr:b;x-colr:c\x7d")).map
          Diagnostic.message := by
  have hsucceeded :
      (tidy (Text.ofString "a \x7b colr : b ; x-colr : c ; \x7d")).succeeded = true := by
    decide +kernel
  have houtput : (tidy (Text.ofString "a \x7b colr : b ; x-colr : c ; \x7d")).output =
      Text.ofString "a\x7bcolr:b;x-colr:c\x7d" := by
    decide +kernel
  obtain ⟨-, -, -, hwarnings⟩ :=
    compact_unseen_by_rules [] (Text.ofString "a \x7b colr : b ; x-colr : c ; \x7d")
  exact ⟨hsucceeded, houtput, houtput ▸ hwarnings hsucceeded⟩

end TextTidy.Css
