import TextTidy.Proofs.Json.Derived

/-!
# What opens arrays and objects

On its way to a value the reader passes everything that stands before it in the arrays and objects
around it. What is wrong at that value is wrong with the whole text.
-/

namespace TextTidy.Json

namespace Grammar

/-- What stands in an array or an object in front of one of its values: the bracket or the brace,
    and perhaps finished items or members, with a comma behind them. -/
inductive Opening where
  | array (done : Option Items) (before : List Space)
  | object (done : Option Members) (before : List Space) (key : List Character)
      (behindKey beforeItem : List Space)

namespace Opening

def text : Opening → Text
  | array none before => .char '[' :: spacing before
  | array (some items) before => .char '[' :: items.text ++ .char ',' :: spacing before
  | object none before key behindKey beforeItem =>
    .char '{' :: keyText before key behindKey beforeItem
  | object (some members) before key behindKey beforeItem =>
    .char '{' :: members.text ++ .char ',' :: keyText before key behindKey beforeItem

/-- What is finished fits the bounds of a reader that has some levels left inside. -/
def Fits : Opening → (levels : Nat) → Prop
  | array done _, levels => ∀ items ∈ done, items.Fits levels
  | object done _ _ _ _, levels => ∀ members ∈ done, members.Fits levels

end Opening

end Grammar

open Grammar

variable {dialect : Dialect} {levels : Nat}

/-! ## Reading on behind a comma -/

theorem items_comma : ∀ (its : Items) {rest : Text}, its.Fits levels →
    bare (items (value dialect levels) (skipSpacing (its.text ++ .char ',' :: rest))) =
      (bare (items (value dialect levels) (skipSpacing rest))).map fun (vs, left) =>
        (its.values ++ vs, left)
  | .last before item behind, rest, hfits => by
    have hitem := @value_tree dialect item _ _ (Items.fits_last.mp hfits)
      (numberEnds_gap behind (Or.inl rfl) rest)
    rw [skipSpacing_items_last, sequence_of_ok (items_eq _) hitem,
      behindElement_comma (by decide) (skipSpacing_gap behind rfl rest)]
    rfl
  | .more before item behind others, rest, hfits => by
    obtain ⟨hfirst, hothers⟩ := Items.fits_more.mp hfits
    have hitem := @value_tree dialect item _ _ hfirst
      (numberEnds_gap behind (Or.inl rfl) (others.text ++ .char ',' :: rest))
    rw [skipSpacing_items_more, sequence_of_ok (items_eq _) hitem,
      behindElement_comma (by decide) (skipSpacing_gap behind rfl _), items_comma others hothers]
    cases bare (items (value dialect levels) (skipSpacing rest)) <;> rfl

theorem members_comma : ∀ (ms : Members) {rest : Text}, ms.Fits levels →
    bare (pairs (value dialect levels) (skipSpacing (ms.text ++ .char ',' :: rest))) =
      (bare (pairs (value dialect levels) (skipSpacing rest))).map fun (found, left) =>
        (ms.pairs ++ found, left)
  | .last before key gap beforeItem item behind, rest, hfits => by
    have hitem := @value_tree dialect item _ _ (Members.fits_last.mp hfits)
      (numberEnds_gap behind (Or.inl rfl) rest)
    have hpair := pair_key (value dialect levels) key gap beforeItem
      (opens_tree item (spacing behind ++ .char ',' :: rest))
    rw [hitem] at hpair
    rw [skipSpacing_members_last, sequence_of_ok (pairs_eq _) hpair,
      behindElement_comma (by decide) (skipSpacing_gap behind rfl rest)]
    rfl
  | .more before key gap beforeItem item behind others, rest, hfits => by
    obtain ⟨hfirst, hothers⟩ := Members.fits_more.mp hfits
    have hitem := @value_tree dialect item _ _ hfirst
      (numberEnds_gap behind (Or.inl rfl) (others.text ++ .char ',' :: rest))
    have hpair := pair_key (value dialect levels) key gap beforeItem
      (opens_tree item (spacing behind ++ .char ',' :: (others.text ++ .char ',' :: rest)))
    rw [hitem] at hpair
    rw [skipSpacing_members_more, sequence_of_ok (pairs_eq _) hpair,
      behindElement_comma (by decide) (skipSpacing_gap behind rfl _),
      members_comma others hothers]
    cases bare (pairs (value dialect levels) (skipSpacing rest)) <;> rfl

/-! ## Faults -/

theorem skipSpacing_keyText (before : List Space) (key : List Character)
    (behindKey beforeItem : List Space) (s : Text) :
    skipSpacing (keyText before key behindKey beforeItem ++ s) =
      keyText [] key behindKey beforeItem ++ s := by
  rw [← skipSpacing_opens before (opens_key key behindKey beforeItem s)]
  simp [keyText]

theorem pairs_key_error {s : Text} (hs : Opens s) {fault : Fault} {item : Reader Value}
    (h : bare (item s) = .error fault) (before : List Space) (key : List Character)
    (behindKey beforeItem : List Space) :
    bare (pairs item (skipSpacing (keyText before key behindKey beforeItem ++ s))) =
      .error fault := by
  have hpair := pair_key item key behindKey beforeItem hs
  rw [h] at hpair
  rw [skipSpacing_keyText, sequence_of_error (pairs_eq item) hpair]

theorem opens_opening (o : Opening) (rest : Text) : Opens (o.text ++ rest) := by
  cases o with
  | array done before => cases done <;> exact opens_char (by decide) _
  | object done before key behindKey beforeItem => cases done <;> exact opens_char (by decide) _

/-- A fault of a value is a fault of the array or the object around it. -/
theorem value_opening {o : Opening} (hfits : o.Fits levels) {s : Text} (hs : Opens s)
    {fault : Fault} (h : bare (value dialect levels s) = .error fault) :
    bare (value dialect (levels + 1) (o.text ++ s)) = .error fault := by
  cases o with
  | array done before =>
    have hitems : bare (items (value dialect levels) (skipSpacing (spacing before ++ s))) =
        .error fault := by
      rw [skipSpacing_opens before hs, sequence_of_error (items_eq _) h]
    cases done with
    | none =>
      have hclose : ∀ left, skipSpacing (spacing before ++ s) ≠ .char ']' :: left := by
        rw [skipSpacing_opens before hs]
        exact hs.ne_close
      show bare (value dialect (levels + 1) (.char '[' :: (spacing before ++ s))) = _
      rw [value_array, array_items _ hclose, hitems]
      rfl
    | some its =>
      have htext : (Opening.array (some its) before).text ++ s =
          .char '[' :: (its.text ++ .char ',' :: (spacing before ++ s)) := by
        simp [Opening.text]
      rw [htext, value_array, array_items _ (items_ne_close its _), items_comma its (hfits its rfl),
        hitems]
      rfl
  | object done before key behindKey beforeItem =>
    have hpairs := pairs_key_error hs h before key behindKey beforeItem
    cases done with
    | none =>
      have hclose : ∀ left,
          skipSpacing (keyText before key behindKey beforeItem ++ s) ≠ .char '}' :: left := by
        rw [skipSpacing_keyText]
        exact key_ne_close key behindKey beforeItem s
      show bare (value dialect (levels + 1)
        (.char '{' :: (keyText before key behindKey beforeItem ++ s))) = _
      rw [value_object, object_pairs _ hclose, hpairs]
      rfl
    | some ms =>
      have htext : (Opening.object (some ms) before key behindKey beforeItem).text ++ s =
          .char '{' ::
            (ms.text ++ .char ',' :: (keyText before key behindKey beforeItem ++ s)) := by
        simp [Opening.text]
      rw [htext, value_object, object_pairs _ (members_ne_close ms _),
        members_comma ms (hfits ms rfl), hpairs]
      rfl

/-! ## Places inside a value -/

/-- Whether a text leads, through openings of arrays and objects, to a place at which a property
    holds of the levels that are left there and of the text from there on. -/
inductive Reached (P : Nat → Text → Prop) : Nat → Text → Prop
  | here {levels : Nat} {s : Text} (h : P levels s) : Reached P levels s
  | inside {levels : Nat} {s : Text} (o : Opening) (hfits : o.Fits levels)
      (h : Reached P levels s) : Reached P (levels + 1) (o.text ++ s)

theorem Reached.mono {P Q : Nat → Text → Prop} (hPQ : ∀ levels s, P levels s → Q levels s)
    {s : Text} (h : Reached P levels s) : Reached Q levels s := by
  induction h with
  | here h => exact .here (hPQ _ _ h)
  | inside o hfits _ ih => exact .inside o hfits ih

theorem Reached.opens {P : Nat → Text → Prop} (hP : ∀ levels s, P levels s → Opens s) {s : Text}
    (h : Reached P levels s) : Opens s := by
  cases h with
  | here h => exact hP _ _ h
  | inside o hfits h => exact opens_opening o _

/-- A fault at a place that a text leads to is the fault of the text. -/
theorem Reached.error {P : Nat → Text → Prop} {fault : Fault} {s : Text}
    (hopens : ∀ levels s, P levels s → Opens s)
    (herror : ∀ levels s, P levels s → bare (value dialect levels s) = .error fault)
    (h : Reached P levels s) : bare (value dialect levels s) = .error fault := by
  induction h with
  | here h => exact herror _ _ h
  | inside o hfits h ih => exact value_opening hfits (h.opens hopens) ih

theorem document_reached {P : Nat → Text → Prop} {fault : Fault} {s : Text}
    (hopens : ∀ levels s, P levels s → Opens s)
    (herror : ∀ levels s, P levels s → bare (value dialect levels s) = .error fault)
    (gap : List Space) (h : Reached P levels s) :
    document dialect levels (spacing gap ++ s) = .error fault := by
  have hs := h.opens hopens
  rw [document_eq, if_neg (hs.head_ne_mark gap), skipSpacing_opens gap hs, h.error hopens herror]
  rfl

end TextTidy.Json
