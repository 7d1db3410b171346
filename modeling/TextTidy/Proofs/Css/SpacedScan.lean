import TextTidy.Proofs.Css.Comment
import TextTidy.Proofs.Css.Spaced
import TextTidy.Proofs.Css.Spelling

/-!
# Scans of texts that are spaced alike

A pattern that matches at the same characters of texts that are spaced alike finds the same in them
and leaves texts that are spaced alike. The patterns for comments, for names in property position
and for misspelt words are such patterns; the one for unterminated declarations is not.
-/

namespace TextTidy.Pattern

open TextTidy.Css

variable {α : Type} {p : Pattern α}

/-- Two characters before a place make no difference to what the pattern takes there. -/
def SameBefore (p : Pattern α) (before before' : Option CodePoint) : Prop :=
  ∀ c rest, p before c rest = p before' c rest

theorem piecesFrom_sameBefore {before before' : Option CodePoint} (h : SameBefore p before before')
    (s : Text) : piecesFrom p before 0 s = piecesFrom p before' 0 s := by
  cases s with
  | nil => rfl
  | cons c rest => rw [piecesFrom, piecesFrom, h]

/-- The pattern matches alike in texts that are spaced alike. -/
structure IgnoresSpacing (p : Pattern α) : Prop extends IgnoresGaps p where
  /-- No match begins at a semicolon. -/
  semicolon : ∀ before rest, p before (.char ';') rest = none
  /-- Two matches at the same character stand for the same and end at the same place. -/
  found : ∀ before c {s o}, c.isBlank = false → Spaced s o →
    (p before c s = none ∧ p before c o = none) ∨
    ∃ taken taken', p before c s = some taken ∧ p before c o = some taken' ∧
      taken.value = taken'.value ∧ Spaced (s.drop taken.more) (o.drop taken'.more) ∧
      SameBefore p ((s.take taken.more).getLast?.or (some c))
        ((o.take taken'.more).getLast?.or (some c))

theorem IgnoresGaps.piecesFrom_gap (hp : IgnoresGaps p) {gap : Text}
    (hgap : Text.isBlank gap = true) (before : Option CodePoint) (s : Text) :
    piecesFrom p before 0 (gap ++ s) =
      gap.map .plain ++ piecesFrom p (if gap.isEmpty then before else none) 0 s := by
  cases gap with
  | nil => rfl
  | cons b gap =>
    obtain ⟨hb, hgap⟩ := Text.isBlank_cons.mp hgap
    rw [List.cons_append, piecesFrom_of_none (hp.silent before b _ hb),
      piecesFrom_of_fresh (fun c rest => hp.fresh b c rest hb), hp.pieces_gap hgap]
    rfl

/-- The same finds, and texts that are spaced alike around what is written for them. -/
structure SpacedPieces (write : α → Text) (a b : List (Piece α)) : Prop where
  finds : a.filterMap Piece.found? = b.filterMap Piece.found?
  texts : Spaced (a.flatMap (Piece.text write)) (b.flatMap (Piece.text write))

namespace SpacedPieces

variable {write : α → Text} {a b : List (Piece α)} {gap gap' : Text}

theorem blank (hgap : SameGap gap gap') :
    SpacedPieces write (gap.map .plain) (gap'.map .plain) where
  finds := by rw [filterMap_found_plain, filterMap_found_plain]
  texts := by
    rw [flatMap_text_plain, flatMap_text_plain]
    exact .blank hgap

theorem char (hgap : SameGap gap gap') {c : CodePoint} (hc : c.isBlank = false)
    (h : SpacedPieces write a b) :
    SpacedPieces write (gap.map .plain ++ .plain c :: a) (gap'.map .plain ++ .plain c :: b) where
  finds := by
    rw [List.filterMap_append, List.filterMap_append, filterMap_found_plain, filterMap_found_plain]
    exact h.finds
  texts := by
    rw [List.flatMap_append, List.flatMap_append, flatMap_text_plain, flatMap_text_plain]
    exact .char hgap hc h.texts

theorem ended (hgap : Text.isBlank gap = true) (hgap' : Text.isBlank gap' = true)
    (h : SpacedPieces write a b) :
    SpacedPieces write (gap.map .plain ++ .plain (.char ';') :: a)
      (gap'.map .plain ++ .plain (.char ';') :: b) where
  finds := by
    rw [List.filterMap_append, List.filterMap_append, filterMap_found_plain, filterMap_found_plain]
    exact h.finds
  texts := by
    rw [List.flatMap_append, List.flatMap_append, flatMap_text_plain, flatMap_text_plain]
    exact .ended hgap hgap' h.texts

theorem found (hgap : SameGap gap gap') (value : α) (h : SpacedPieces write a b) :
    SpacedPieces write (gap.map .plain ++ .found value :: a)
      (gap'.map .plain ++ .found value :: b) where
  finds := by
    rw [List.filterMap_append, List.filterMap_append, filterMap_found_plain, filterMap_found_plain]
    exact congrArg (value :: ·) h.finds
  texts := by
    rw [List.flatMap_append, List.flatMap_append, flatMap_text_plain, flatMap_text_plain]
    exact (Spaced.blank hgap).append ((Spaced.refl (write value)).append h.texts)

end SpacedPieces

namespace IgnoresSpacing

theorem piecesFrom_spaced (hp : IgnoresSpacing p) (write : α → Text) (n : Nat) {s o : Text}
    {before before' : Option CodePoint} (hn : s.length < n) (h : Spaced s o)
    (hbefore : SameBefore p before before') :
    SpacedPieces write (piecesFrom p before 0 s) (piecesFrom p before' 0 o) := by
  induction n generalizing s o before before' with
  | zero => exact absurd hn (Nat.not_lt_zero _)
  | succ n ih =>
    have hgaps := hp.toIgnoresGaps
    cases h with
    | blank hgap =>
      have hfront := hgaps.piecesFrom_gap hgap.blank before []
      have hfront' := hgaps.piecesFrom_gap hgap.blank' before' []
      rw [List.append_nil, piecesFrom, List.append_nil] at hfront hfront'
      rw [hfront, hfront']
      exact .blank hgap
    | ended hgap hgap' hrest =>
      rw [List.length_append, List.length_cons] at hn
      rw [hgaps.piecesFrom_gap hgap, hgaps.piecesFrom_gap hgap',
        piecesFrom_of_none (hp.semicolon _ _), piecesFrom_of_none (hp.semicolon _ _)]
      exact .ended hgap hgap' (ih (by omega) hrest fun _ _ => rfl)
    | @char gap gap' s o c hgap hc hrest =>
      rw [List.length_append, List.length_cons] at hn
      rw [hgaps.piecesFrom_gap hgap.blank, hgaps.piecesFrom_gap hgap.blank', hgap.isEmpty_eq]
      have hsame : SameBefore p (if gap'.isEmpty then before else none)
          (if gap'.isEmpty then before' else none) := by
        intro c rest
        split
        · exact hbefore c rest
        · rfl
      rw [piecesFrom_sameBefore hsame]
      rcases hp.found (if gap'.isEmpty then before' else none) c hc hrest with
        ⟨hnone, hnone'⟩ | ⟨taken, taken', hsome, hsome', hvalue, hdrop, hlast⟩
      · rw [piecesFrom_of_none hnone, piecesFrom_of_none hnone']
        exact .char hgap hc (ih (by omega) hrest fun _ _ => rfl)
      · rw [piecesFrom_of_some hsome, piecesFrom_of_some hsome', piecesFrom_drop,
          piecesFrom_drop p (some c) taken'.more, hvalue]
        exact .found hgap _ (ih (by rw [List.length_drop]; omega) hdrop hlast)

theorem findAll_eq (hp : IgnoresSpacing p) {s o : Text} (h : Spaced s o) :
    findAll p s = findAll p o :=
  (hp.piecesFrom_spaced (fun _ => []) (s.length + 1) (Nat.lt_succ_self _) h fun _ _ => rfl).finds

theorem replace_spaced (hp : IgnoresSpacing p) (write : α → Text) {s o : Text} (h : Spaced s o) :
    Spaced (replace p write s) (replace p write o) :=
  (hp.piecesFrom_spaced write (s.length + 1) (Nat.lt_succ_self _) h fun _ _ => rfl).texts

end IgnoresSpacing

end TextTidy.Pattern

namespace TextTidy.Css

/-! ## Comments -/

theorem commentEnd?_gap {gap : Text} (hgap : Text.isBlank gap = true) (s : Text) :
    commentEnd? (gap ++ s) = (commentEnd? s).map (· + gap.length) := by
  induction gap with
  | nil => simp
  | cons b gap ih =>
    obtain ⟨hb, hgap⟩ := Text.isBlank_cons.mp hgap
    have hstep : b = .char '*' → (gap ++ s).head? ≠ some (.char '/') := by
      rintro rfl
      exact absurd hb (by decide)
    rw [List.cons_append, commentEnd?_cons hstep, ih hgap, Option.map_map]
    rfl

/-- A comment ends in neither of two bodies, or in both, and then what is behind its ends is spaced
alike. -/
inductive EndAlike (s o : Text) : Prop
  | never (hs : commentEnd? s = none) (ho : commentEnd? o = none)
  | ended (n n' : Nat) (hs : commentEnd? s = some n) (ho : commentEnd? o = some n')
      (hrest : Spaced (s.drop n) (o.drop n'))

/-- Gaps in front are counted, and otherwise passed over. -/
theorem EndAlike.gap {s o gap gap' : Text} (h : EndAlike s o) (hgap : Text.isBlank gap = true)
    (hgap' : Text.isBlank gap' = true) : EndAlike (gap ++ s) (gap' ++ o) := by
  cases h with
  | never hs ho =>
    refine .never ?_ ?_
    · rw [commentEnd?_gap hgap, hs, Option.map_none]
    · rw [commentEnd?_gap hgap', ho, Option.map_none]
  | ended n n' hs ho hrest =>
    refine .ended (n + gap.length) (n' + gap'.length) ?_ ?_ ?_
    · rw [commentEnd?_gap hgap, hs, Option.map_some]
    · rw [commentEnd?_gap hgap', ho, Option.map_some]
    · rw [Nat.add_comm n, Nat.add_comm n', List.drop_length_add_append,
        List.drop_length_add_append]
      exact hrest

/-- A character in front that does not begin an end mark is counted too. -/
theorem EndAlike.cons {s o : Text} (h : EndAlike s o) {c : CodePoint}
    (hs : c = .char '*' → s.head? ≠ some (.char '/'))
    (ho : c = .char '*' → o.head? ≠ some (.char '/')) : EndAlike (c :: s) (c :: o) := by
  cases h with
  | never hnone hnone' =>
    refine .never ?_ ?_
    · rw [commentEnd?_cons hs, hnone, Option.map_none]
    · rw [commentEnd?_cons ho, hnone', Option.map_none]
  | ended n n' hsome hsome' hrest =>
    refine .ended (n + 1) (n' + 1) ?_ ?_ hrest
    · rw [commentEnd?_cons hs, hsome, Option.map_some]
    · rw [commentEnd?_cons ho, hsome', Option.map_some]

theorem endAlike_of_spaced {s o : Text} (h : Spaced s o) : EndAlike s o := by
  induction h with
  | blank hgap =>
    have hnil : EndAlike [] [] := .never rfl rfl
    have := hnil.gap hgap.blank hgap.blank'
    rwa [List.append_nil, List.append_nil] at this
  | @char gap gap' s o c hgap hc hs ih =>
    refine EndAlike.gap ?_ hgap.blank hgap.blank'
    by_cases hend : c = .char '*' ∧ s.head? = some (.char '/')
    · obtain ⟨rfl, hslash⟩ := hend
      obtain ⟨rest, rfl⟩ := List.head?_eq_some_iff.mp hslash
      obtain ⟨rest', rfl, hrest⟩ := hs.front (by decide) (by decide)
      exact .ended 2 2 rfl rfl hrest
    · refine ih.cons (fun hc hslash => hend ⟨hc, hslash⟩) ?_
      rintro rfl hslash
      obtain ⟨rest', rfl⟩ := List.head?_eq_some_iff.mp hslash
      obtain ⟨rest, rfl, -⟩ := hs.symm.front (by decide) (by decide)
      exact hend ⟨rfl, rfl⟩
  | ended hgap hgap' hs ih =>
    refine EndAlike.gap (ih.cons ?_ ?_) hgap hgap'
    · exact fun h => absurd h (by decide)
    · exact fun h => absurd h (by decide)

theorem comment_ignoresSpacing : comment.IgnoresSpacing where
  silent before b rest hb := by
    refine comment_of_not_opening ?_ before
    rintro rfl
    exact absurd hb (by decide)
  fresh b c rest _ := comment_before (some b) c rest
  semicolon before rest := comment_of_not_opening (fun h => absurd h (by decide)) before
  found before c s o hc h := by
    have hopening : ∀ {body : Text}, comment before (.char '/') (.char '*' :: body) =
        (commentEnd? body).map fun n => ⟨n + 1, ()⟩ := rfl
    by_cases hopen : c = .char '/' ∧ s.head? = some (.char '*')
    · obtain ⟨rfl, hstar⟩ := hopen
      obtain ⟨body, rfl⟩ := List.head?_eq_some_iff.mp hstar
      obtain ⟨body', rfl, hbody⟩ := h.front (by decide) (by decide)
      rw [hopening, hopening]
      cases endAlike_of_spaced hbody with
      | never hnone hnone' =>
        rw [hnone, hnone']
        exact Or.inl ⟨rfl, rfl⟩
      | ended n n' hn hn' hrest =>
        rw [hn, hn']
        refine Or.inr ⟨_, _, rfl, rfl, rfl, hrest, fun c rest => ?_⟩
        rw [comment_before, comment_before (Option.or _ _)]
    · refine Or.inl ⟨comment_of_not_opening (fun hc hstar => hopen ⟨hc, hstar⟩) before,
        comment_of_not_opening ?_ before⟩
      rintro rfl hstar
      obtain ⟨body', rfl⟩ := List.head?_eq_some_iff.mp hstar
      obtain ⟨body, rfl, -⟩ := h.symm.front (by decide) (by decide)
      exact hopen ⟨rfl, rfl⟩

theorem stripComments_spaced {s o : Text} (h : Spaced s o) :
    Spaced (stripComments s) (stripComments o) :=
  comment_ignoresSpacing.replace_spaced _ h

/-! ## Names -/

theorem propertyName_at_name {c : CodePoint} {tail gap : Text}
    (hchars : ∀ x ∈ c :: tail, isNameChar x = true) (hgap : Text.isBlank gap = true)
    (before : Option CodePoint) (rest : Text) :
    propertyName before c (tail ++ (gap ++ .char ':' :: rest)) =
      if atWordEdge before c then some ⟨tail.length + gap.length + 1, c :: tail⟩ else none := by
  rw [List.forall_mem_cons] at hchars
  obtain ⟨hfront, hbehind⟩ := span_name hchars.2 hgap rest
  have hcolon : colonFollows (gap ++ .char ':' :: rest) = true :=
    colonFollows_iff.mpr ⟨gap, rest, rfl, hgap⟩
  simp only [propertyName, hfront, hbehind, hcolon, hchars.1,
    Text.leadingBlanks_gap hgap (c := .char ':') (by decide), Bool.true_and, Bool.and_true]

theorem propertyName_eq_none {c : CodePoint} {s : Text}
    (h : (isNameChar c && colonFollows (s.dropWhile isNameChar)) = false)
    (before : Option CodePoint) : propertyName before c s = none := by
  rw [Bool.and_eq_false_iff] at h
  rcases h with h | h <;> simp [propertyName, h]

theorem propertyName_ignoresSpacing : propertyName.IgnoresSpacing where
  silent := propertyName_ignoresGaps.silent
  fresh := propertyName_ignoresGaps.fresh
  semicolon before rest := propertyName_halts.silent before (.char ';') rest (by decide)
  found before c s o _ h := by
    cases hname : isNameChar c && colonFollows (s.dropWhile isNameChar) with
    | false =>
      refine Or.inl ⟨propertyName_eq_none hname before, propertyName_eq_none ?_ before⟩
      rw [← h.colonFollows_dropWhile_eq, hname]
    | true =>
      rw [Bool.and_eq_true] at hname
      obtain ⟨gap, rest, hbehind, hgap⟩ := colonFollows_iff.mp hname.2
      obtain ⟨tail, htail, hs⟩ : ∃ tail, (∀ x ∈ tail, isNameChar x = true) ∧
          s = tail ++ (gap ++ .char ':' :: rest) := by
        refine ⟨s.takeWhile isNameChar, fun x hx => List.mem_takeWhile_imp hx, ?_⟩
        rw [← hbehind, List.takeWhile_append_dropWhile]
      subst hs
      obtain ⟨behind, rfl, hrest⟩ := h.name_front htail
      obtain ⟨gap', rest', rfl, hgap', -, hrest⟩ := hrest.gap_front hgap (by decide)
      have hchars : ∀ x ∈ c :: tail, isNameChar x = true :=
        List.forall_mem_cons.mpr ⟨hname.1, htail⟩
      rw [propertyName_at_name hchars hgap, propertyName_at_name hchars hgap']
      cases atWordEdge before c with
      | false => exact Or.inl ⟨rfl, rfl⟩
      | true =>
        have hdrop : ∀ gap rest : Text, (tail ++ (gap ++ CodePoint.char ':' :: rest)).drop
            (tail.length + gap.length + 1) = rest := by
          intro gap rest
          rw [Nat.add_assoc, List.drop_length_add_append, List.drop_length_add_append]
          rfl
        have htake : ∀ gap rest : Text, (tail ++ (gap ++ CodePoint.char ':' :: rest)).take
            (tail.length + gap.length + 1) = (tail ++ gap) ++ [.char ':'] := by
          intro gap rest
          rw [Nat.add_assoc, List.take_length_add_append, List.take_length_add_append,
            List.append_assoc]
          rfl
        refine Or.inr ⟨_, _, rfl, rfl, rfl, ?_, fun c rest => ?_⟩
        · rw [hdrop, hdrop]
          exact hrest
        · rw [htake, htake, List.getLast?_concat, List.getLast?_concat]

theorem typos_spaced {s o : Text} (h : Spaced s o) : typos s = typos o := by
  rw [typos, typos, propertyName_ignoresSpacing.findAll_eq h]

/-! ## Misspelt words -/

theorem dropStart?_spaced {start : List Char}
    (hstart : ∀ a ∈ start, isNameChar (.char a) = true) {s o : Text} (h : Spaced s o) :
    (Text.dropStart? start s = none ∧ Text.dropStart? start o = none) ∨
      ∃ rest rest', Text.dropStart? start s = some rest ∧ Text.dropStart? start o = some rest' ∧
        Spaced rest rest' := by
  induction start generalizing s o with
  | nil => exact Or.inr ⟨s, o, rfl, rfl, h⟩
  | cons a start ih =>
    rw [List.forall_mem_cons] at hstart
    have hblank := not_isBlank_of_isNameChar hstart.1
    have hne : CodePoint.char a ≠ .char ';' := by
      intro ha
      rw [ha] at hstart
      exact absurd hstart.1 (by decide)
    have hnone : ∀ {s : Text}, s.head? ≠ some (.char a) →
        Text.dropStart? (a :: start) s = none := by
      intro s hs
      cases s with
      | nil => rfl
      | cons c s =>
        rw [Text.dropStart?, if_neg]
        rintro rfl
        exact hs rfl
    by_cases hhead : s.head? = some (.char a)
    · obtain ⟨s, rfl⟩ := List.head?_eq_some_iff.mp hhead
      obtain ⟨o, rfl, hso⟩ := h.front hblank hne
      rw [Text.dropStart?, Text.dropStart?, if_pos rfl, if_pos rfl]
      exact ih hstart.2 hso
    · refine Or.inl ⟨hnone hhead, hnone ?_⟩
      intro hhead'
      obtain ⟨o, rfl⟩ := List.head?_eq_some_iff.mp hhead'
      obtain ⟨s, rfl, -⟩ := h.symm.front hblank hne
      exact hhead rfl

theorem misspelled_spaced {c : CodePoint} {s o : Text} (hc : c.isBlank = false) (h : Spaced s o)
    (before : Option CodePoint) : misspelled before c s = misspelled before c o := by
  have hchars : ∀ entry ∈ misspellings, ∀ a ∈ entry.wrong.toList,
      isNameChar (.char a) = true := by
    intro entry hmem a ha
    exact (misspellings_isNameChar entry hmem).1 _ (List.mem_map_of_mem ha)
  rw [misspelled, misspelled]
  split
  · refine findSome?_congr fun entry hmem => ?_
    rcases dropStart?_spaced (hchars entry hmem) (h.cons hc) with
      ⟨hnone, hnone'⟩ | ⟨rest, rest', hrest, hrest', hspaced⟩
    · rw [hnone, hnone']
    · simp only [hrest, hrest', hspaced.colonFollows_eq]
  · rfl

theorem misspelled_ignoresSpacing : misspelled.IgnoresSpacing where
  silent := misspelled_ignoresGaps.silent
  fresh := misspelled_ignoresGaps.fresh
  semicolon before rest := misspelled_halts.silent before (.char ';') rest (by decide)
  found before c s o hc h := by
    have hsame := misspelled_spaced hc h before
    cases hs : misspelled before c s with
    | none => exact Or.inl ⟨rfl, by rw [← hsame, hs]⟩
    | some taken =>
      rw [hs] at hsame
      obtain ⟨hmem, hlen, behind, hfront, -⟩ := misspelled_eq_some hs
      have hspaced := h.cons hc
      rw [hfront] at hspaced
      obtain ⟨behind', hfront', hrest⟩ := hspaced.name_front (misspellings_isNameChar _ hmem).1
      have htake : ∀ {t behind : Text}, c :: t = Text.ofString taken.value.wrong ++ behind →
          c :: t.take taken.more = Text.ofString taken.value.wrong := by
        intro t behind ht
        have := congrArg (List.take (taken.more + 1)) ht
        rwa [List.take_succ_cons, hlen, List.take_left] at this
      refine Or.inr ⟨taken, taken, rfl, hsame.symm, rfl, ?_, fun x rest => ?_⟩
      · rw [drop_misspelled hfront hlen, drop_misspelled hfront' hlen]
        exact hrest
      · rw [(List.cons.inj ((htake hfront).trans (htake hfront').symm)).2]

theorem respelled_spaced {s o : Text} (h : Spaced s o) : respelled s = respelled o :=
  misspelled_ignoresSpacing.findAll_eq h

theorem correctSpelling_spaced {s o : Text} (h : Spaced s o) :
    Spaced (correctSpelling s) (correctSpelling o) :=
  misspelled_ignoresSpacing.replace_spaced _ h

end TextTidy.Css
