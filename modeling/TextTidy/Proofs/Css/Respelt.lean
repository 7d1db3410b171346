import TextTidy.Proofs.Css.Lacking
import TextTidy.Proofs.Css.Typo

/-!
# Respelt texts

The semicolon pass cuts no misspelt word off its colon, and it makes none, so it is all the same to
the spelling pass. That one puts a right name at the end of a name, and no misspelling ends like a
right name. So a respelt text has nothing to respell, and as the typo check reports nothing but what
would be respelt, it has nothing to report either.
-/

namespace TextTidy.Css

/-! ## Words and semicolons -/

theorem colonFollows_append {more : Text} (h : colonFollows more = false) (s : Text) :
    colonFollows (s ++ more) = colonFollows s := by
  induction s with
  | nil => exact h
  | cons c s ih => rw [List.cons_append, colonFollows_cons, colonFollows_cons, ih]

/-- Where no name goes on and no colon comes next, a text may be cut. -/
theorem respelledBehind_append {b : CodePoint} {more : Text} (hb : isNameChar b = false)
    (hcolon : colonFollows (b :: more) = false) (before : Option CodePoint) (s : Text) :
    respelledBehind before (s ++ b :: more) =
      respelledBehind before s ++ respelledBehind (some b) more := by
  induction s using Text.span_induction isNameChar generalizing before with
  | last name hchars =>
    obtain ⟨-, hwords, -⟩ := finds_last hchars before
    rw [respelledBehind_name hchars before hb, hcolon, if_neg Bool.false_ne_true, hwords]
  | more name c rest hchars hc ih =>
    have hsame : colonFollows (c :: (rest ++ b :: more)) = colonFollows (c :: rest) :=
      colonFollows_append hcolon (c :: rest)
    rw [List.append_assoc, List.cons_append, respelledBehind_name hchars before hc, hsame, ih,
      respelledBehind_name hchars before hc, List.append_assoc]

/-- What may come behind a declaration does not go on with its last name, nor with a colon. -/
theorem exists_cons_of_endsDeclaration {s : Text} (h : endsDeclaration s = true) :
    ∃ b more, s = b :: more ∧ isNameChar b = false ∧ colonFollows s = false := by
  have hgap : ∀ {gap : Text}, Text.isBlank gap = true → colonFollows gap = false := by
    intro gap hgap
    rw [colonFollows, Text.trimStart_of_isBlank hgap]
  rw [endsDeclaration_eq, Bool.or_eq_true] at h
  rcases h with h | h
  · obtain ⟨gap, name, gap', rest, rfl, hne, hblank, hname, hchars, -⟩ := nextProperty_iff.mp h
    obtain ⟨b, gap, rfl⟩ := List.exists_cons_of_ne_nil hne
    obtain ⟨x, name, rfl⟩ := List.exists_cons_of_ne_nil hname
    have hcolon : colonFollows (x :: name ++ (gap' ++ .char ':' :: rest)) = false := by
      rw [← Bool.not_eq_true]
      intro hcolon
      have := not_isNameChar_of_colonFollows hcolon x rfl
      rw [hchars x (by simp)] at this
      cases this
    refine ⟨b, _, rfl, not_isNameChar_of_isBlank (Text.isBlank_cons.mp hblank).1, ?_⟩
    rw [colonFollows_append hcolon, hgap hblank]
  · obtain ⟨gap, rest, rfl, hblank⟩ := closes_iff.mp h
    have hcolon : colonFollows (gap ++ .char '}' :: rest) = false := by
      rw [colonFollows_append_delimiter (by decide), hgap hblank]
    cases gap with
    | nil => exact ⟨.char '}', rest, rfl, by decide, hcolon⟩
    | cons b gap =>
      exact ⟨b, _, rfl, not_isNameChar_of_isBlank (Text.isBlank_cons.mp hblank).1, hcolon⟩

/-- The semicolon pass neither makes misspelt words nor hides them. -/
theorem respelled_insertSemicolons (s : Text) : respelled (insertSemicolons s) = respelled s := by
  induction hlen : s.length using Nat.strong_induction_on generalizing s with
  | _ n ih =>
    cases hlacks : lacksSemicolon s with
    | false => rw [insertSemicolons_eq_self_iff.mpr hlacks]
    | true =>
      obtain ⟨pre, decl, more, rfl, hdecl, hends, -, hfirst⟩ := exists_first_unterminated hlacks
      have hshorter : more.length < n := by
        have := List.length_pos_iff.mpr hdecl.ne_nil
        simp only [List.length_append] at hlen
        omega
      obtain ⟨b, behind, rfl, hb, hcolon⟩ := exists_cons_of_endsDeclaration hends
      calc respelled (insertSemicolons (pre ++ decl ++ b :: behind))
          = respelled (pre ++ decl) ++ respelled (insertSemicolons (b :: behind)) := by
            rw [hfirst, respelled_append (by decide)]
        _ = respelled (pre ++ decl) ++ respelledBehind (some b) behind := by
            rw [ih _ hshorter _ rfl, ← respelledBehind_cons hb none]
            rfl
        _ = respelled (pre ++ decl ++ b :: behind) :=
            (respelledBehind_append hb hcolon none (pre ++ decl)).symm

/-! ## The spelling pass once more -/

/-- A name that a right name ends has no misspelling at its end. -/
theorem misspeltEnd_right {before : Option CodePoint} {front : Text} {entry : Misspelling}
    (hmem : entry ∈ misspellings) :
    misspeltEnd before (front ++ Text.ofString entry.right) = none := by
  rw [← Option.not_isSome_iff_eq_none, misspeltEnd_isSome_iff]
  rintro ⟨front', entry', hmem', hname, -⟩
  obtain ⟨hwrong, hright⟩ := misspellings_apart entry' hmem' entry hmem
  have hends : Text.ofString entry'.wrong <:+ front ++ Text.ofString entry.right :=
    ⟨front', hname.symm⟩
  rcases List.suffix_or_suffix_of_suffix hends (List.suffix_append _ _) with h | h
  · exact hwrong h
  · exact hright h

/-- The spelling pass makes names of names, and they have no misspelling at their ends if a colon
follows. -/
theorem exists_respelt_name {name : Text} (hchars : ∀ x ∈ name, isNameChar x = true)
    (before : Option CodePoint) {c : CodePoint} (hc : isNameChar c = false) (rest : Text) :
    ∃ name', (∀ x ∈ name', isNameChar x = true) ∧
      (colonFollows (c :: rest) = true → misspeltEnd before name' = none) ∧
      respeltBehind before (name ++ c :: rest) = name' ++ c :: respeltBehind (some c) rest := by
  have hkept : ∀ pieces : List (Piece Misspelling),
      (name.map Piece.plain ++ Piece.plain c :: pieces).flatMap
          (Piece.text fun entry : Misspelling => Text.ofString entry.right) =
        name ++ c :: pieces.flatMap (Piece.text fun entry => Text.ofString entry.right) := by
    intro pieces
    rw [List.flatMap_append, Pattern.flatMap_text_plain]
    rfl
  cases hcolon : colonFollows (c :: rest) with
  | false =>
    refine ⟨name, hchars, fun h => absurd h Bool.false_ne_true, ?_⟩
    rw [respeltBehind, piecesFrom_name misspelled_eq_none hchars (by simpa using hc) hcolon,
      piecesFrom_not_name misspelled_eq_none hc, hkept, respeltBehind]
  | true =>
    rcases misspelled_piecesFrom_name hchars hcolon before with
      ⟨hend, hpieces⟩ | ⟨front, entry, hmem, rfl, -, hpieces⟩
    · exact ⟨name, hchars, fun _ => hend, by rw [respeltBehind, hpieces, hkept, respeltBehind]⟩
    · refine ⟨front ++ Text.ofString entry.right, ?_, fun _ => misspeltEnd_right hmem, ?_⟩
      · intro x hx
        rcases List.mem_append.mp hx with hx | hx
        · exact hchars x (List.mem_append_left _ hx)
        · exact (misspellings_isNameChar entry hmem).2 x hx
      · rw [respeltBehind, hpieces, List.flatMap_append, Pattern.flatMap_text_plain,
          List.append_assoc]
        rfl

theorem colonFollows_respeltBehind (before : Option CodePoint) (s : Text) :
    colonFollows (respeltBehind before s) = colonFollows s := by
  induction s generalizing before with
  | nil => rfl
  | cons c s ih =>
    cases htaken : misspelled before c s with
    | none =>
      have hplain : respeltBehind before (c :: s) = c :: respeltBehind (some c) s := by
        rw [respeltBehind, Pattern.piecesFrom_of_none htaken]
        rfl
      rw [hplain, colonFollows_cons, colonFollows_cons, ih]
    | some taken =>
      have hname : ∀ {word : Text}, (∀ x ∈ word, isNameChar x = true) → word ≠ [] → ∀ t,
          colonFollows (word ++ t) = false := by
        intro word hchars hne t
        obtain ⟨x, word, rfl⟩ := List.exists_cons_of_ne_nil hne
        rw [← Bool.not_eq_true]
        intro hcolon
        have := not_isNameChar_of_colonFollows hcolon x rfl
        rw [hchars x (by simp)] at this
        cases this
      obtain ⟨hmem, -, behind, hs, -⟩ := misspelled_eq_some htaken
      obtain ⟨hpos, hlen, hle⟩ := misspellings_length taken.value hmem
      obtain ⟨hwrong, hright⟩ := misspellings_isNameChar taken.value hmem
      rw [hs, hname hwrong (List.ne_nil_of_length_pos (by omega)), ← hs, respeltBehind,
        Pattern.piecesFrom_of_some htaken, List.flatMap_cons]
      exact hname hright (List.ne_nil_of_length_pos (by omega)) _

/-- A respelt text has nothing to respell. -/
theorem respelledBehind_respeltBehind (before : Option CodePoint) (s : Text) :
    respelledBehind before (respeltBehind before s) = [] := by
  induction s using Text.span_induction isNameChar generalizing before with
  | last name hchars =>
    obtain ⟨-, hwords, hkept⟩ := finds_last hchars before
    rw [hkept, hwords]
  | more name c rest hchars hc ih =>
    obtain ⟨name', hchars', hend, hrespelt⟩ := exists_respelt_name hchars before hc rest
    have hcolon : colonFollows (c :: respeltBehind (some c) rest) = colonFollows (c :: rest) := by
      rw [colonFollows_cons, colonFollows_cons, colonFollows_respeltBehind]
    rw [hrespelt, respelledBehind_name hchars' before hc, hcolon, ih]
    cases h : colonFollows (c :: rest) with
    | false => rfl
    | true => simp [hend h]

theorem correctSpelling_correctSpelling (s : Text) :
    correctSpelling (correctSpelling s) = correctSpelling s :=
  correctSpelling_eq_self_iff.mpr (respelledBehind_respeltBehind none s)

/-! ## Corrected texts -/

/-- A corrected text has nothing to respell. -/
theorem respelled_corrected (s : Text) : respelled (corrected s) = [] := by
  rw [← correctSpelling_eq_self_iff, corrected, closeBlocks]
  split
  · rw [correctSpelling_append_replicate, correctSpelling_correctSpelling]
  · exact correctSpelling_correctSpelling _

/-- No known misspelling survives a correction, so there is nothing to warn of in an outcome that a
correction has led to. -/
theorem corrected_has_no_typos (s : Text) :
    Rule.propertyTypos.check (correct s).text = [] ∧
      ∀ raw, (tidy raw).kind = .correctedAndMinified → (tidy raw).warnings = [] := by
  have hnone : ∀ s, typos (corrected s) = [] := by
    intro s
    have hsub := (typosBehind_respelledBehind none (corrected s)).1
    have hwords : respelledBehind none (corrected s) = [] := respelled_corrected s
    rw [hwords] at hsub
    exact List.sublist_nil.mp hsub
  refine ⟨?_, fun raw hkind => ?_⟩
  · rw [Rule.propertyTypos]
    exact List.map_eq_nil_iff.mpr (hnone s)
  · rw [tidy_of_kind_corrected hkind]
    show (validate (corrected (stripComments raw))).warnings = []
    rw [validate_warnings, hnone, List.map_nil]

/-- Misspellings that stand before a lacking semicolon, behind hyphens, and at the open end. -/
theorem corrected_has_no_typos_joined :
    Rule.propertyTypos.check (correct (Text.ofString "a\x7bcolr:b x-widht:c;-colr :d")).text = [] ∧
      (tidy (Text.ofString "a\x7bcolr:b x-widht:c;-colr :d;")).kind = .correctedAndMinified ∧
      (tidy (Text.ofString "a\x7bcolr:b x-widht:c;-colr :d;")).warnings = [] := by
  have hkind : (tidy (Text.ofString "a\x7bcolr:b x-widht:c;-colr :d;")).kind =
      .correctedAndMinified := by
    decide +kernel
  exact ⟨(corrected_has_no_typos _).1, hkind,
    (corrected_has_no_typos (Text.ofString "a\x7bcolr:b x-widht:c;-colr :d")).2 _ hkind⟩

end TextTidy.Css
