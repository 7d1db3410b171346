import TextTidy.Proofs.Css.Comment

/-!
# Comments in a scan with two states

A scan that goes through a text once either copies what it meets or, behind the opening mark of a
comment, skips what is there up to the first end mark. Where no end mark follows it copies all that
is left. The pattern for comments does not match at such an opening mark, and then it is tried at
every character behind it; what it leaves of a text is the same.
-/

namespace TextTidy.Css

/-! ## The scan -/

/-- The opening mark of comments. -/
def commentOpen : Text := Text.ofString "/*"

/-- The place of the first end mark of comments. -/
def closePlace? (s : Text) : Option Nat :=
  (List.range s.length).find? fun n => Text.startsWith (s.drop n) commentClose

/-- What the scan copies. -/
def copied : Text → Text
  | .char '/' :: .char '*' :: body =>
    match closePlace? body with
    | some n => copied (body.drop (n + 2))
    | none => .char '/' :: .char '*' :: body
  | c :: rest => c :: copied rest
  | [] => []
termination_by s => s.length
decreasing_by
  · simp only [List.length_cons, List.length_drop]
    omega
  · simp

/-! ## End marks -/

theorem closePlace?_cons (c : CodePoint) (s : Text) :
    closePlace? (c :: s) =
      if Text.startsWith (c :: s) commentClose then some 0 else (closePlace? s).map (· + 1) := by
  rw [closePlace?, List.length_cons, List.range_succ_eq_map, List.find?_cons, List.drop_zero]
  cases Text.startsWith (c :: s) commentClose with
  | true => rfl
  | false =>
    rw [List.find?_map]
    rfl

theorem startsWith_commentClose_iff {c : CodePoint} {s : Text} :
    Text.startsWith (c :: s) commentClose = true ↔
      c = .char '*' ∧ s.head? = some (.char '/') := by
  rw [Text.startsWith, List.isPrefixOf_iff_prefix]
  constructor
  · rintro ⟨rest, h⟩
    obtain ⟨rfl, rfl⟩ := List.cons.inj h
    exact ⟨rfl, rfl⟩
  · rintro ⟨rfl, h⟩
    obtain ⟨rest, rfl⟩ := List.head?_eq_some_iff.mp h
    exact ⟨rest, rfl⟩

/-- A comment ends behind the first end mark. -/
theorem commentEnd?_eq (s : Text) : commentEnd? s = (closePlace? s).map (· + 2) := by
  induction s with
  | nil => rfl
  | cons c s ih =>
    rw [closePlace?_cons]
    by_cases h : Text.startsWith (c :: s) commentClose = true
    · obtain ⟨rfl, hslash⟩ := startsWith_commentClose_iff.mp h
      obtain ⟨rest, rfl⟩ := List.head?_eq_some_iff.mp hslash
      rw [if_pos h]
      rfl
    · rw [if_neg h, commentEnd?_cons fun hc hslash => h (startsWith_commentClose_iff.mpr ⟨hc, hslash⟩),
        ih, Option.map_map, Option.map_map]
      rfl

theorem closePlace?_isSome (s : Text) :
    (closePlace? s).isSome = Text.contains s commentClose := by
  induction s with
  | nil => rfl
  | cons c s ih =>
    rw [closePlace?_cons, Text.contains, ← ih]
    cases Text.startsWith (c :: s) commentClose with
    | true => rfl
    | false => rw [if_neg Bool.false_ne_true, Option.isSome_map, Bool.false_or]

theorem closePlace?_eq_none {s : Text} (h : Text.contains s commentClose = false) :
    closePlace? s = none := by
  rw [← Option.isNone_iff_eq_none, ← Option.not_isSome, closePlace?_isSome, h]
  rfl

theorem closePlace?_body {body : Text} (h : Text.contains body commentClose = false)
    (rest : Text) : closePlace? (body ++ (commentClose ++ rest)) = some body.length := by
  have hend := commentEnd?_body h rest
  rw [commentEnd?_eq, Option.map_eq_some_iff] at hend
  obtain ⟨n, hn, hlen⟩ := hend
  rw [hn, Nat.add_right_cancel hlen]

/-- A text with an end mark is cut at the first one. -/
theorem exists_first_close {s : Text} (h : Text.contains s commentClose = true) :
    ∃ body rest, s = body ++ (commentClose ++ rest) ∧
      Text.contains body commentClose = false := by
  induction s with
  | nil => cases h
  | cons c s ih =>
    by_cases hstart : Text.startsWith (c :: s) commentClose = true
    · obtain ⟨rest, hrest⟩ := List.isPrefixOf_iff_prefix.mp hstart
      exact ⟨[], rest, hrest.symm, rfl⟩
    · rw [Text.contains, Bool.or_eq_true] at h
      obtain ⟨body, rest, rfl, hbody⟩ := ih (h.resolve_left hstart)
      refine ⟨c :: body, rest, rfl, ?_⟩
      have hshort : ¬ Text.startsWith (c :: body) commentClose = true := by
        intro hclose
        obtain ⟨rfl, hslash⟩ := startsWith_commentClose_iff.mp hclose
        obtain ⟨more, rfl⟩ := List.head?_eq_some_iff.mp hslash
        exact hstart (startsWith_commentClose_iff.mpr ⟨rfl, rfl⟩)
      rw [Text.contains, hbody, Bool.or_false]
      exact Bool.not_eq_true _ ▸ hshort

/-! ## Induction along a text -/

/-- Every text begins with a complete comment, is a comment that is never closed, or begins with a
character outside all comments. -/
theorem comment_induction {motive : Text → Prop} (nil : motive [])
    (complete : ∀ body rest, Text.contains body commentClose = false → motive rest →
      motive (commented body ++ rest))
    (unclosed : ∀ body, Text.contains body commentClose = false → motive (commentOpen ++ body))
    (plain : ∀ c rest, (c = .char '/' → rest.head? ≠ some (.char '*')) → motive rest →
      motive (c :: rest)) (s : Text) : motive s := by
  induction hlen : s.length using Nat.strong_induction_on generalizing s with
  | _ n ih =>
    cases s with
    | nil => exact nil
    | cons c rest =>
      rw [List.length_cons] at hlen
      by_cases hopen : c = .char '/' ∧ rest.head? = some (.char '*')
      · obtain ⟨rfl, hstar⟩ := hopen
        obtain ⟨tail, rfl⟩ := List.head?_eq_some_iff.mp hstar
        cases hclose : Text.contains tail commentClose with
        | false => exact unclosed tail hclose
        | true =>
          obtain ⟨body, behind, rfl, hbody⟩ := exists_first_close hclose
          rw [← commented_append]
          simp only [List.length_cons, List.length_append] at hlen
          exact complete body behind hbody (ih behind.length (by omega) behind rfl)
      · exact plain c rest (fun hc hstar => hopen ⟨hc, hstar⟩)
          (ih rest.length (by omega) rest rfl)

theorem stripComments_plain {c : CodePoint} {rest : Text}
    (h : c = .char '/' → rest.head? ≠ some (.char '*')) :
    stripComments (c :: rest) = c :: stripComments rest :=
  stripComments_of_none (comment_of_not_opening h none)

/-- A comment begins where an opening mark has an end mark behind it. -/
theorem comment_isSome_iff {before : Option CodePoint} {c : CodePoint} {rest : Text} :
    (comment before c rest).isSome = true ↔
      c = .char '/' ∧ ∃ body, rest = .char '*' :: body ∧
        Text.contains body commentClose = true := by
  have hbody : ∀ body, (comment before (.char '/') (.char '*' :: body)).isSome =
      Text.contains body commentClose := by
    intro body
    show ((commentEnd? body).map _).isSome = _
    rw [Option.isSome_map, commentEnd?_eq, Option.isSome_map, closePlace?_isSome]
  constructor
  · intro h
    by_cases hopen : c = .char '/' ∧ rest.head? = some (.char '*')
    · obtain ⟨rfl, hstar⟩ := hopen
      obtain ⟨body, rfl⟩ := List.head?_eq_some_iff.mp hstar
      exact ⟨rfl, body, rfl, hbody body ▸ h⟩
    · rw [comment_of_not_opening fun hc hstar => hopen ⟨hc, hstar⟩] at h
      cases h
  · rintro ⟨rfl, body, rfl, h⟩
    rw [hbody, h]

theorem stripComments_of_not_closed {s : Text} (h : Text.contains s commentClose = false) :
    stripComments s = s := by
  induction s with
  | nil => rfl
  | cons c s ih =>
    rw [Text.contains, Bool.or_eq_false_iff] at h
    have hnone : comment none c s = none := by
      rw [← Option.not_isSome_iff_eq_none, comment_isSome_iff]
      rintro ⟨-, body, rfl, hclose⟩
      rw [Text.contains, hclose, Bool.or_true] at h
      cases h.2
    rw [stripComments_of_none hnone, ih h.2]

/-- A comment that is never closed is kept, with everything behind its opening mark. -/
theorem stripComments_unclosed {body : Text} (h : Text.contains body commentClose = false) :
    stripComments (commentOpen ++ body) = commentOpen ++ body := by
  have hslash : comment none (.char '/') (.char '*' :: body) = none := by
    rw [← Option.not_isSome_iff_eq_none, comment_isSome_iff]
    rintro ⟨-, _, hsame, hclose⟩
    obtain ⟨-, rfl⟩ := List.cons.inj hsame
    rw [h] at hclose
    cases hclose
  show stripComments (.char '/' :: .char '*' :: body) = .char '/' :: .char '*' :: body
  rw [stripComments_of_none hslash, stripComments_of_none (comment_none_of_ne (by decide) body),
    stripComments_of_not_closed h]

/-! ## Both leave the same -/

theorem copied_commented {body : Text} (h : Text.contains body commentClose = false)
    (rest : Text) : copied (commented body ++ rest) = copied rest := by
  have hdrop : (body ++ (commentClose ++ rest)).drop (body.length + 2) = rest := by
    rw [List.drop_length_add_append]
    rfl
  rw [commented_append, copied, closePlace?_body h]
  simp only [hdrop]

theorem copied_unclosed {body : Text} (h : Text.contains body commentClose = false) :
    copied (commentOpen ++ body) = commentOpen ++ body := by
  show copied (.char '/' :: .char '*' :: body) = .char '/' :: .char '*' :: body
  rw [copied, closePlace?_eq_none h]

theorem copied_plain {c : CodePoint} {rest : Text}
    (h : c = .char '/' → rest.head? ≠ some (.char '*')) :
    copied (c :: rest) = c :: copied rest := by
  rw [copied]
  rintro body rfl rfl
  exact h rfl rfl

theorem stripComments_eq_copied (css : Text) : stripComments css = copied css := by
  induction css using comment_induction with
  | nil =>
    rw [copied]
    rfl
  | complete body rest hbody ih => rw [stripComments_commented hbody, copied_commented hbody, ih]
  | unclosed body hbody => rw [stripComments_unclosed hbody, copied_unclosed hbody]
  | plain c rest hplain ih => rw [stripComments_plain hplain, copied_plain hplain, ih]

/-- Behind a text that leaves no comment open, an opening mark that is never closed is kept with all
that follows. -/
theorem stripComments_append_unclosed {a body : Text} (ha : leavesCommentOpen a = false)
    (h : Text.contains body commentClose = false) :
    stripComments (a ++ (commentOpen ++ body)) = stripComments a ++ (commentOpen ++ body) := by
  rw [stripComments_append ha (by simp [commentOpen, Text.ofString]), stripComments_unclosed h]

/-- Comments go as a scan with two states skips them. Behind a text that leaves no comment open, a
comment ends with the first end mark behind its opening mark, whatever opening marks it holds
itself; one that is never closed is kept, and so is one whose opening mark shares its star with the
only end mark. -/
theorem stripComments_two_states :
    (∀ css, stripComments css = copied css) ∧
    ∀ a body, leavesCommentOpen a = false → Text.contains body commentClose = false →
      (∀ rest, stripComments (a ++ (commented body ++ rest)) =
        stripComments a ++ stripComments rest) ∧
      stripComments (a ++ (commentOpen ++ body)) = stripComments a ++ (commentOpen ++ body) ∧
      stripComments (a ++ (commentOpen ++ .char '/' :: body)) =
        stripComments a ++ (commentOpen ++ .char '/' :: body) := by
  refine ⟨stripComments_eq_copied, fun a body ha hbody => ⟨fun rest => ?_, ?_, ?_⟩⟩
  · have hhead : (commented body ++ rest).head? ≠ some (.char '*') := by
      rw [commented_append]
      simp
    rw [stripComments_append ha hhead, stripComments_commented hbody]
  · exact stripComments_append_unclosed ha hbody
  · refine stripComments_append_unclosed ha ?_
    rw [Text.contains, hbody]
    rfl

/-- A comment that holds an opening mark, behind a complete one and before an end mark. -/
theorem stripComments_two_states_nested :
    leavesCommentOpen (Text.ofString "x/*b*/") = false ∧
      Text.contains (Text.ofString "/*") commentClose = false ∧
      stripComments (Text.ofString "x/*b*/" ++
        (commented (Text.ofString "/*") ++ Text.ofString "*/")) = Text.ofString "x*/" ∧
      stripComments (Text.ofString "x/*b*/" ++ (commentOpen ++ .char '/' :: Text.ofString "/*")) =
        Text.ofString "x/*//*" := by
  have ha : leavesCommentOpen (Text.ofString "x/*b*/") = false := by decide
  have hbody : Text.contains (Text.ofString "/*") commentClose = false := by decide
  obtain ⟨hnested, -, hshared⟩ :=
    stripComments_two_states.2 (Text.ofString "x/*b*/") (Text.ofString "/*") ha hbody
  refine ⟨ha, hbody, ?_, ?_⟩
  · rw [hnested]
    decide
  · rw [hshared]
    decide

end TextTidy.Css
