import TextTidy.Proofs.Css.SpacedScan

/-!
# Scans for names before a colon

The typo check and the spelling pass look at names before a colon only. The check looks a name up as
a whole, from the first place on where a word begins or ends in it; the pass looks up the word at
its end. So both can be described from one name to the next.
-/

namespace TextTidy.Css

/-! ## The table -/

theorem misspelling?_eq_some {name : Text} {entry : Misspelling}
    (h : misspelling? name = some entry) :
    entry ∈ misspellings ∧ Text.ofString entry.wrong = name := by
  have hfound := List.find?_some h
  rw [beq_iff_eq] at hfound
  exact ⟨List.mem_of_find?_eq_some h, hfound⟩

theorem misspelling?_wrong :
    ∀ entry ∈ misspellings, misspelling? (Text.ofString entry.wrong) = some entry := by
  decide

/-- Misspellings are words: each of their characters is a letter. -/
theorem misspellings_isWordChar :
    ∀ entry ∈ misspellings,
      (∀ c ∈ Text.ofString entry.wrong, isWordChar c = true) ∧
      ∀ c ∈ Text.ofString entry.right, isWordChar c = true := by
  decide

/-- No misspelling ends a right name, and no right name ends a misspelling. -/
theorem misspellings_apart :
    ∀ entry ∈ misspellings, ∀ entry' ∈ misspellings,
      ¬Text.ofString entry.wrong <:+ Text.ofString entry'.right ∧
      ¬Text.ofString entry'.right <:+ Text.ofString entry.wrong := by
  decide

/-! ## The scans at a name -/

/-- A text of name characters before a colon is the longest name there. -/
theorem name_unique {name name' behind behind' : Text} (hchars : ∀ c ∈ name, isNameChar c = true)
    (hchars' : ∀ c ∈ name', isNameChar c = true)
    (hbehind : ∀ c ∈ behind.head?, isNameChar c = false)
    (hbehind' : ∀ c ∈ behind'.head?, isNameChar c = false)
    (h : name ++ behind = name' ++ behind') : name = name' ∧ behind = behind' := by
  have hspan : ∀ {name behind : Text}, (∀ c ∈ name, isNameChar c = true) →
      (∀ c ∈ behind.head?, isNameChar c = false) →
      (name ++ behind).takeWhile isNameChar = name := by
    intro name behind hchars hbehind
    cases behind with
    | nil => rw [List.append_nil, List.takeWhile_eq_self_iff.mpr hchars]
    | cons c behind => exact Text.takeWhile_span hchars (hbehind c rfl) behind
  have hname : name = name' := by rw [← hspan hchars hbehind, h, hspan hchars' hbehind']
  subst hname
  exact ⟨rfl, List.append_cancel_left h⟩

/-- What is before a colon, blanks aside, does not go on with a name character. -/
theorem not_isNameChar_of_colonFollows {s : Text} (h : colonFollows s = true) :
    ∀ c ∈ s.head?, isNameChar c = false := by
  obtain ⟨gap, rest, rfl, hgap⟩ := colonFollows_iff.mp h
  intro c hc
  cases gap with
  | nil =>
    obtain rfl := Option.some.inj hc
    decide
  | cons b gap =>
    obtain rfl := Option.some.inj hc
    exact not_isNameChar_of_isBlank (Text.isBlank_cons.mp hgap).1

theorem misspelled_eq_none {c : CodePoint} {s : Text}
    (h : (isNameChar c && colonFollows (s.dropWhile isNameChar)) = false)
    (before : Option CodePoint) : misspelled before c s = none := by
  rw [Option.eq_none_iff_forall_ne_some]
  intro taken htaken
  obtain ⟨hmem, -, behind, hs, hcolon⟩ := misspelled_eq_some htaken
  have hchars := (misspellings_isNameChar taken.value hmem).1
  have hsilent := not_isNameChar_of_colonFollows hcolon
  have hbehind : (c :: s).dropWhile isNameChar = behind := by
    rw [hs, List.dropWhile_append_of_pos hchars]
    cases behind with
    | nil => rfl
    | cons d behind => simp [hsilent d rfl]
  have hc : isNameChar c = true := by
    by_contra hc
    rw [Bool.not_eq_true] at hc
    rw [misspelled_of_not_isNameChar hc] at htaken
    cases htaken
  rw [List.dropWhile_cons_of_pos hc] at hbehind
  rw [hbehind, hcolon, hc] at h
  cases h

/-- At a name before a colon, what the spelling pass takes is the whole name, if it is one of the
table. -/
theorem misspelled_at_name {c : CodePoint} {tail behind : Text}
    (hchars : ∀ x ∈ c :: tail, isNameChar x = true) (hcolon : colonFollows behind = true)
    (before : Option CodePoint) :
    misspelled before c (tail ++ behind) =
      if atWordEdge before c then
        (misspelling? (c :: tail)).map fun entry => ⟨tail.length, entry⟩
      else none := by
  rw [misspelled]
  split
  · rw [misspelling?, List.find?_eq_findSome?_guard, List.map_findSome?]
    refine findSome?_congr fun entry hmem => ?_
    obtain ⟨-, hlen, -⟩ := misspellings_length entry hmem
    have hwrong := (misspellings_isNameChar entry hmem).1
    by_cases hname : Text.ofString entry.wrong = c :: tail
    · have hfront : c :: (tail ++ behind) = entry.wrong.toList.map CodePoint.char ++ behind := by
        rw [← List.cons_append, ← hname]
        rfl
      have htail : entry.wrong.length - 1 = tail.length := by
        rw [← hlen, hname, List.length_cons, Nat.add_sub_cancel]
      simp [hfront, Text.dropStart?_append, hcolon, htail, hname, Option.guard]
    · have hguard : Option.guard (fun entry => Text.ofString entry.wrong == c :: tail) entry =
          none := by
        simpa [Option.guard] using hname
      rw [Function.comp_apply, hguard, Option.map_none]
      cases hdrop : Text.dropStart? entry.wrong.toList (c :: (tail ++ behind)) with
      | none => rfl
      | some behind' =>
        refine if_neg fun hcolon' => hname ?_
        have hsplit : Text.ofString entry.wrong ++ behind' = (c :: tail) ++ behind :=
          (Text.dropStart?_eq_some hdrop).symm
        exact (name_unique hwrong hchars (not_isNameChar_of_colonFollows hcolon')
          (not_isNameChar_of_colonFollows hcolon) hsplit).1
  · rfl

/-! ## From name to name -/

/-- The misspelling at the end of a name, if a word begins with it. -/
def misspeltEnd : (before : Option CodePoint) → (name : Text) → Option Misspelling
  | _, [] => none
  | before, c :: tail =>
    if atWordEdge before c then (misspelling? (c :: tail)).or (misspeltEnd (some c) tail)
    else misspeltEnd (some c) tail

/-- The misspelling that a name is, from the place on where the first word begins or ends. -/
def misspeltName : (before : Option CodePoint) → (name : Text) → Option Misspelling
  | _, [] => none
  | before, c :: tail =>
    if atWordEdge before c then misspelling? (c :: tail) else misspeltName (some c) tail

section Scans

variable {α : Type} {p : Pattern α} {name : Text} {c : CodePoint}

/-- A scan for names before a colon passes over a name that has none behind it. -/
theorem piecesFrom_name
    (hp : ∀ {c s}, (isNameChar c && colonFollows (s.dropWhile isNameChar)) = false →
      ∀ before, p before c s = none)
    (hchars : ∀ x ∈ name, isNameChar x = true) {behind : Text}
    (hbehind : ∀ c ∈ behind.head?, isNameChar c = false) (hcolon : colonFollows behind = false)
    (before : Option CodePoint) :
    p.piecesFrom before 0 (name ++ behind) =
      name.map .plain ++ p.piecesFrom (name.getLast?.or before) 0 behind := by
  induction name generalizing before with
  | nil => rfl
  | cons x name ih =>
    obtain ⟨hx, htail⟩ := List.forall_mem_cons.mp hchars
    have hdrop : (name ++ behind).dropWhile isNameChar = behind := by
      rw [List.dropWhile_append_of_pos htail]
      cases behind with
      | nil => rfl
      | cons d behind => simp [hbehind d rfl]
    have hnone : p before x (name ++ behind) = none := by
      refine hp ?_ before
      rw [hdrop, hcolon, Bool.and_false]
    rw [List.cons_append, Pattern.piecesFrom_of_none hnone, ih htail (some x),
      Pattern.getLast?_cons_or]
    rfl

/-- Such a scan takes a character that is not of a name for itself. -/
theorem piecesFrom_not_name
    (hp : ∀ {c s}, (isNameChar c && colonFollows (s.dropWhile isNameChar)) = false →
      ∀ before, p before c s = none)
    (hc : isNameChar c = false) (before : Option CodePoint) (rest : Text) :
    p.piecesFrom before 0 (c :: rest) = .plain c :: p.piecesFrom (some c) 0 rest := by
  refine Pattern.piecesFrom_of_none (hp ?_ before)
  rw [hc, Bool.false_and]

end Scans

/-- The spelling pass at a name before a colon: it leaves the name, or it takes the misspelling at
its end. -/
theorem misspelled_piecesFrom_name {name : Text} (hchars : ∀ x ∈ name, isNameChar x = true)
    {c : CodePoint} {rest : Text} (hcolon : colonFollows (c :: rest) = true)
    (before : Option CodePoint) :
    (misspeltEnd before name = none ∧
      misspelled.piecesFrom before 0 (name ++ c :: rest) =
        name.map .plain ++ .plain c :: misspelled.piecesFrom (some c) 0 rest) ∨
    ∃ front entry, entry ∈ misspellings ∧ name = front ++ Text.ofString entry.wrong ∧
      misspeltEnd before name = some entry ∧
      misspelled.piecesFrom before 0 (name ++ c :: rest) =
        front.map .plain ++ .found entry :: .plain c :: misspelled.piecesFrom (some c) 0 rest := by
  have hc : isNameChar c = false := not_isNameChar_of_colonFollows hcolon c rfl
  induction name generalizing before with
  | nil => exact Or.inl ⟨rfl, piecesFrom_not_name misspelled_eq_none hc before rest⟩
  | cons x name ih =>
    obtain ⟨-, htail⟩ := List.forall_mem_cons.mp hchars
    have hname := misspelled_at_name hchars hcolon before
    by_cases hfound : atWordEdge before x = true ∧ ∃ entry, misspelling? (x :: name) = some entry
    · obtain ⟨hedge, entry, hentry⟩ := hfound
      obtain ⟨hmem, hwrong⟩ := misspelling?_eq_some hentry
      rw [if_pos hedge, hentry] at hname
      refine Or.inr ⟨[], entry, hmem, hwrong.symm, ?_, ?_⟩
      · rw [misspeltEnd, if_pos hedge, hentry, Option.some_or]
      · rw [List.cons_append, Pattern.piecesFrom_of_some hname, Pattern.piecesFrom_skip,
          piecesFrom_not_name misspelled_eq_none hc]
        rfl
    · have hnone : misspelled before x (name ++ c :: rest) = none ∧
          misspeltEnd before (x :: name) = misspeltEnd (some x) name := by
        rw [hname, misspeltEnd]
        by_cases hedge : atWordEdge before x = true
        · cases hentry : misspelling? (x :: name) with
          | none => simp [hedge]
          | some entry => exact absurd ⟨hedge, entry, hentry⟩ hfound
        · simp [hedge]
      rw [List.cons_append, Pattern.piecesFrom_of_none hnone.1, hnone.2]
      rcases ih htail (some x) with ⟨hend, hpieces⟩ | ⟨front, entry, hmem, rfl, hend, hpieces⟩
      · exact Or.inl ⟨hend, by rw [hpieces]; rfl⟩
      · exact Or.inr ⟨x :: front, entry, hmem, rfl, hend, by rw [hpieces]; rfl⟩

/-- The misspellings that the check finds behind a character. -/
def typosBehind (before : Option CodePoint) (s : Text) : List Misspelling :=
  ((propertyName.piecesFrom before 0 s).filterMap Piece.found?).filterMap misspelling?

/-- The misspellings that the spelling pass finds behind a character. -/
def respelledBehind (before : Option CodePoint) (s : Text) : List Misspelling :=
  (misspelled.piecesFrom before 0 s).filterMap Piece.found?

/-- What the spelling pass writes behind a character. -/
def respeltBehind (before : Option CodePoint) (s : Text) : Text :=
  (misspelled.piecesFrom before 0 s).flatMap (Piece.text fun entry => Text.ofString entry.right)

/-- The check reads a character that does not belong to a name and goes on behind it. -/
theorem typosBehind_cons {c : CodePoint} (hc : isNameChar c = false) (before : Option CodePoint)
    (s : Text) : typosBehind before (c :: s) = typosBehind (some c) s := by
  rw [typosBehind, piecesFrom_not_name propertyName_eq_none hc]
  rfl

theorem respelledBehind_cons {c : CodePoint} (hc : isNameChar c = false)
    (before : Option CodePoint) (s : Text) :
    respelledBehind before (c :: s) = respelledBehind (some c) s := by
  rw [respelledBehind, piecesFrom_not_name misspelled_eq_none hc]
  rfl

theorem finds_plain {α : Type} (s : Text) (c : CodePoint) (pieces : List (Piece α)) :
    (s.map Piece.plain ++ Piece.plain c :: pieces).filterMap Piece.found? =
      pieces.filterMap Piece.found? := by
  rw [List.filterMap_append, Pattern.filterMap_found_plain]
  rfl

section Names

variable {name : Text} (hchars : ∀ x ∈ name, isNameChar x = true) (before : Option CodePoint)

include hchars

theorem finds_last :
    typosBehind before name = [] ∧ respelledBehind before name = [] ∧
      respeltBehind before name = name := by
  have hend : ∀ c ∈ ([] : Text).head?, isNameChar c = false := by simp
  have htypos := piecesFrom_name propertyName_eq_none hchars hend rfl before
  have hwords := piecesFrom_name misspelled_eq_none hchars hend rfl before
  rw [List.append_nil, Pattern.piecesFrom, List.append_nil] at htypos hwords
  rw [typosBehind, respelledBehind, respeltBehind, htypos, hwords, Pattern.filterMap_found_plain,
    Pattern.filterMap_found_plain, Pattern.flatMap_text_plain]
  exact ⟨rfl, rfl, rfl⟩

variable {c : CodePoint} (hc : isNameChar c = false) (rest : Text)

include hc

theorem respelledBehind_name :
    respelledBehind before (name ++ c :: rest) =
      (if colonFollows (c :: rest) then (misspeltEnd before name).toList else []) ++
        respelledBehind (some c) rest := by
  cases hcolon : colonFollows (c :: rest) with
  | false =>
    rw [respelledBehind, piecesFrom_name misspelled_eq_none hchars (by simpa using hc) hcolon,
      piecesFrom_not_name misspelled_eq_none hc, finds_plain, if_neg Bool.false_ne_true,
      List.nil_append, respelledBehind]
  | true =>
    rw [respelledBehind, if_pos rfl]
    rcases misspelled_piecesFrom_name hchars hcolon before with
      ⟨hend, hpieces⟩ | ⟨front, entry, -, -, hend, hpieces⟩
    · rw [hpieces, hend, finds_plain, Option.toList_none, List.nil_append, respelledBehind]
    · rw [hpieces, hend, List.filterMap_append, Pattern.filterMap_found_plain]
      rfl

theorem typosBehind_name :
    typosBehind before (name ++ c :: rest) =
      (if colonFollows (c :: rest) then (misspeltName before name).toList else []) ++
        typosBehind (some c) rest := by
  cases hcolon : colonFollows (c :: rest) with
  | false =>
    rw [typosBehind, piecesFrom_name propertyName_eq_none hchars (by simpa using hc) hcolon,
      piecesFrom_not_name propertyName_eq_none hc, finds_plain, if_neg Bool.false_ne_true,
      List.nil_append, typosBehind]
  | true =>
    rw [if_pos rfl]
    induction name generalizing before with
    | nil => exact typosBehind_cons hc before rest
    | cons x name ih =>
      obtain ⟨-, htail⟩ := List.forall_mem_cons.mp hchars
      obtain ⟨gap, behind, hgapped, hgap⟩ := colonFollows_iff.mp hcolon
      have hname := propertyName_at_name hchars hgap before behind
      rw [← hgapped] at hname
      cases hedge : atWordEdge before x with
      | false =>
        rw [hedge, if_neg Bool.false_ne_true] at hname
        rw [misspeltName, hedge, if_neg Bool.false_ne_true, ← ih htail, typosBehind,
          List.cons_append, Pattern.piecesFrom_of_none hname]
        rfl
      | true =>
        -- the match takes the gap and the colon too, where nothing could begin
        have hgapBehind : typosBehind (some c) rest = typosBehind (some (.char ':')) behind := by
          rw [← typosBehind_cons hc none, typosBehind, hgapped,
            propertyName_ignoresGaps.piecesFrom_gap hgap,
            piecesFrom_not_name propertyName_eq_none (by decide), finds_plain, typosBehind]
        have htaken : name ++ c :: rest = (name ++ gap ++ [.char ':']) ++ behind := by
          rw [hgapped, List.append_assoc, List.append_assoc]
          rfl
        have hlen : name.length + gap.length + 1 = (name ++ gap ++ [CodePoint.char ':']).length := by
          simp only [List.length_append, List.length_singleton]
        rw [hedge, if_pos rfl] at hname
        rw [misspeltName, hedge, if_pos rfl, hgapBehind, typosBehind, List.cons_append,
          Pattern.piecesFrom_of_some hname, hlen, htaken, Pattern.piecesFrom_skip,
          List.getLast?_concat]
        cases hentry : misspelling? (x :: name) <;> simp [Piece.found?, hentry, typosBehind]

end Names

end TextTidy.Css
