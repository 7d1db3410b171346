import TextTidy.Proofs.Json.Opening
import TextTidy.Proofs.Json.Parse

/-!
# Where reading fails

A fault that is not one of form is met at a value: at an array or an object that nests too deeply,
or at a value that is neither. The text leads there through openings of arrays and objects, and what
stands in front of that value has been read.
-/

namespace TextTidy.Json

open Grammar

/-- Whether reading fails at a value itself and not inside it. -/
inductive FailsHere (fault : Fault) : Nat → Text → Prop
  | nesting {s : Text} (hopen : s.head? = some (.char '[') ∨ s.head? = some (.char '{'))
      (hfault : fault = .beyond .nesting) : FailsHere fault 0 s
  | scalar {levels : Nat} {s : Text} (harray : s.head? ≠ some (.char '['))
      (hobject : s.head? ≠ some (.char '{')) (hread : bare (scalar .strict s) = .error fault) :
      FailsHere fault levels s

variable {fault : Fault} (hfault : ∀ flaw left, fault ≠ .malformed flaw left) {levels : Nat}
  {s : Text}

include hfault

/-- Where the items of an array cannot be read, one of them cannot, behind items that can. -/
theorem items_eq_error
    (h : bare (items (value .strict levels) s) = .error fault) (before : List Space) :
    ∃ done gap rest, .char '[' :: (spacing before ++ s) = (Opening.array done gap).text ++ rest ∧
      (Opening.array done gap).Fits levels ∧
        bare (value .strict levels rest) = .error fault := by
  induction hn : s.length using Nat.strongRecOn generalizing s before with
  | ind n ih =>
    subst hn
    rcases sequence_eq_error (items_eq _) (by decide) hfault h with
      hitem | ⟨v, behind, rest, hitem, hcomma, hothers⟩
    · exact ⟨none, before, s, rfl, by simp [Opening.Fits], hitem⟩
    · obtain ⟨t, hs, -, hfits⟩ := exists_tree hitem
      obtain ⟨gap, hgap⟩ := exists_spacing behind
      obtain ⟨gap', hgap'⟩ := exists_spacing rest
      obtain ⟨done, last, left, htext, hdone, hleft⟩ :=
        ih _ (length_behind_comma hitem hcomma) hothers gap' rfl
      rw [← hgap'] at htext
      have hfront : spacing before ++ s = spacing before ++ t.text ++ spacing gap ++ .char ',' ::
          rest := by
        rw [hs, hgap, hcomma]
        simp
      cases done with
      | none =>
        refine ⟨some (.last before t gap), last, left, ?_, ?_, hleft⟩
        · rw [hfront, (List.cons.inj htext).2]
          simp [Opening.text, Items.text]
        · rintro its hits
          cases hits
          exact Items.fits_last.mpr hfits
      | some others =>
        refine ⟨some (.more before t gap others), last, left, ?_, ?_, hleft⟩
        · have hrest : rest = others.text ++ .char ',' :: (spacing last ++ left) := by
            simpa [Opening.text] using htext
          rw [hfront, hrest]
          simp [Opening.text, Items.text]
        · rintro its hits
          cases hits
          exact Items.fits_more.mpr ⟨hfits, hdone others rfl⟩

/-- Where the members of an object cannot be read, a value of one cannot, behind members that
    can. -/
theorem pairs_eq_error
    (h : bare (pairs (value .strict levels) s) = .error fault) (before : List Space) :
    ∃ done gap key behindKey beforeItem rest,
      .char '{' :: (spacing before ++ s) =
        (Opening.object done gap key behindKey beforeItem).text ++ rest ∧
      (Opening.object done gap key behindKey beforeItem).Fits levels ∧
        bare (value .strict levels rest) = .error fault := by
  induction hn : s.length using Nat.strongRecOn generalizing s before with
  | ind n ih =>
    subst hn
    rcases sequence_eq_error (pairs_eq _) (by decide) hfault h with
      hpair | ⟨member, behind, rest, hpair, hcomma, hothers⟩
    · rcases pair_cases (value .strict levels) s with
        ⟨key, behindKey, beforeItem, left, hs, heq⟩ | ⟨flaw, left, heq⟩
      · refine ⟨none, before, key, behindKey, beforeItem, left, ?_, by simp [Opening.Fits], ?_⟩
        · rw [hs]
          simp [Opening.text, keyText]
        · rw [heq] at hpair
          exact error_of_map hpair
      · rw [heq] at hpair
        cases hpair
        exact absurd rfl (hfault _ _)
    · obtain ⟨key, behindKey, beforeItem, t, hs, -, hfits⟩ := exists_pair hpair
      obtain ⟨gap, hgap⟩ := exists_spacing behind
      obtain ⟨gap', hgap'⟩ := exists_spacing rest
      obtain ⟨done, last, key', behindKey', beforeItem', left, htext, hdone, hleft⟩ :=
        ih _ (length_behind_comma hpair hcomma) hothers gap' rfl
      rw [← hgap'] at htext
      have hfront : spacing before ++ s = keyText before key behindKey beforeItem ++ t.text ++
          spacing gap ++ .char ',' :: rest := by
        rw [hs, hgap, hcomma]
        simp [keyText]
      cases done with
      | none =>
        refine ⟨some (.last before key behindKey beforeItem t gap), last, key', behindKey',
          beforeItem', left, ?_, ?_, hleft⟩
        · rw [hfront, (List.cons.inj htext).2]
          simp [Opening.text, Members.text]
        · rintro ms hms
          cases hms
          exact Members.fits_last.mpr hfits
      | some others =>
        refine ⟨some (.more before key behindKey beforeItem t gap others), last, key', behindKey',
          beforeItem', left, ?_, ?_, hleft⟩
        · have hrest : rest = others.text ++ .char ',' ::
              (keyText last key' behindKey' beforeItem' ++ left) := by
            simpa [Opening.text] using htext
          rw [hfront, hrest]
          simp [Opening.text, Members.text]
        · rintro ms hms
          cases hms
          exact Members.fits_more.mpr ⟨hfits, hdone others rfl⟩

/-- Reading fails with such a fault only where a text leads to a value that it fails at. -/
theorem reached_of_error (h : bare (value .strict levels s) = .error fault) :
    Reached (FailsHere fault) levels s := by
  induction levels generalizing s with
  | zero =>
    by_cases hopen : s.head? = some (.char '[') ∨ s.head? = some (.char '{')
    · rw [value_zero hopen] at h
      cases h
      exact .here (.nesting hopen rfl)
    · obtain ⟨harray, hobject⟩ := not_or.mp hopen
      rw [value_scalar harray hobject] at h
      exact .here (.scalar harray hobject h)
  | succ levels ih =>
    by_cases harray : s.head? = some (.char '[')
    · cases s with
      | nil => cases harray
      | cons c s =>
        cases harray
        rw [value_array] at h
        by_cases hend : ∃ left, skipSpacing s = .char ']' :: left
        · obtain ⟨left, hleft⟩ := hend
          rw [array_close _ hleft] at h
          cases h
        · rw [array_items _ fun left hleft => hend ⟨left, hleft⟩] at h
          obtain ⟨gap, hgap⟩ := exists_spacing s
          obtain ⟨done, last, rest, htext, hfits, hrest⟩ :=
            items_eq_error hfault (error_of_map h) gap
          rw [hgap, htext]
          exact Reached.inside _ hfits (ih hrest)
    · by_cases hobject : s.head? = some (.char '{')
      · cases s with
        | nil => cases hobject
        | cons c s =>
          cases hobject
          rw [value_object] at h
          by_cases hend : ∃ left, skipSpacing s = .char '}' :: left
          · obtain ⟨left, hleft⟩ := hend
            rw [object_close _ hleft] at h
            cases h
          · rw [object_pairs _ fun left hleft => hend ⟨left, hleft⟩] at h
            obtain ⟨gap, hgap⟩ := exists_spacing s
            obtain ⟨done, last, key, behindKey, beforeItem, rest, htext, hfits, hrest⟩ :=
              pairs_eq_error hfault (error_of_map h) gap
            rw [hgap, htext]
            exact Reached.inside _ hfits (ih hrest)
      · rw [value_scalar harray hobject] at h
        exact .here (.scalar harray hobject h)

theorem exists_of_document_error (h : document .strict levels s = .error fault) :
    ∃ gap body, s = spacing gap ++ body ∧ Reached (FailsHere fault) levels body := by
  obtain ⟨gap, hgap⟩ := exists_spacing s
  rw [document_eq] at h
  split at h
  · cases h
    exact absurd rfl (hfault _ _)
  · cases hread : bare (value .strict levels (skipSpacing s)) with
    | error fault =>
      rw [hread] at h
      cases h
      exact ⟨gap, _, hgap, reached_of_error hfault hread⟩
    | ok read =>
      obtain ⟨v, left⟩ := read
      rw [hread] at h
      change (if (skipSpacing left).isEmpty then Except.ok v else _) = _ at h
      split at h
      · cases h
      · cases h
        exact absurd rfl (hfault _ _)

end TextTidy.Json
