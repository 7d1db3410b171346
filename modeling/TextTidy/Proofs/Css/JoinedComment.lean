import TextTidy.Proofs.Css.Account
import TextTidy.Proofs.Css.CommentScan

/-!
# Comments that stripping makes

Every complete comment of a text goes when its comments are stripped, but what stands before one and
what stands behind it come together. A slash and a star that meet in this way are an opening mark
that the text did not have, and with an end mark behind them they make a complete comment. There is
no other way for a comment to be left, and a correction makes none.
-/

namespace TextTidy.Css

variable {s o : Text}

/-! ## Complete comments in a text -/

/-- Somewhere in the text stands an opening mark, and an end mark at least two characters behind the
place where it begins. -/
def HasComment (s : Text) : Prop :=
  ∃ before body behind, s = before ++ (commented body ++ behind)

theorem hasComment_opening (h : Text.contains s commentClose = true) :
    HasComment (.char '/' :: .char '*' :: s) := by
  obtain ⟨body, behind, rfl⟩ := Text.contains_iff.mp h
  exact ⟨[], body, behind, (commented_append body behind).symm⟩

theorem HasComment.cons (h : HasComment s) (c : CodePoint) : HasComment (c :: s) := by
  obtain ⟨before, body, behind, rfl⟩ := h
  exact ⟨c :: before, body, behind, rfl⟩

theorem HasComment.append (h : HasComment s) (front : Text) : HasComment (front ++ s) := by
  induction front with
  | nil => exact h
  | cons c front ih => exact ih.cons c

/-- A comment begins with the first character of a text or lies behind it. -/
theorem hasComment_cons {c : CodePoint} (h : HasComment (c :: s)) :
    HasComment s ∨ c = .char '/' ∧
      ∃ rest, s = .char '*' :: rest ∧ Text.contains rest commentClose = true := by
  obtain ⟨before, body, behind, hs⟩ := h
  cases before with
  | nil =>
    rw [List.nil_append, commented_append] at hs
    obtain ⟨rfl, rfl⟩ := List.cons.inj hs
    exact Or.inr ⟨rfl, _, rfl, Text.contains_iff.mpr ⟨body, behind, rfl⟩⟩
  | cons x before =>
    obtain ⟨-, rfl⟩ := List.cons.inj hs
    exact Or.inl ⟨before, body, behind, rfl⟩

theorem HasComment.contains_close (h : HasComment s) : Text.contains s commentClose = true := by
  obtain ⟨before, body, behind, rfl⟩ := h
  refine Text.contains_iff.mpr ⟨before ++ (Text.ofString "/*" ++ body), behind, ?_⟩
  simp [commented]

theorem not_hasComment_unclosed {body : Text} (h : Text.contains body commentClose = false) :
    ¬ HasComment (commentOpen ++ body) := by
  intro hcomment
  have hclosed : Text.contains body commentClose = true := by
    rcases hasComment_cons hcomment with hcomment | ⟨-, rest, hrest, hclose⟩
    · -- the star of the opening mark opens nothing
      rcases hasComment_cons hcomment with hcomment | ⟨hstar, -⟩
      · exact hcomment.contains_close
      · cases hstar
    · obtain ⟨-, rfl⟩ := List.cons.inj hrest
      exact hclose
  rw [h] at hclosed
  cases hclosed

/-- The pattern for comments finds one exactly in the texts that have one. -/
theorem occursIn_comment_iff : comment.occursIn s = true ↔ HasComment s := by
  rw [Pattern.occursIn_eq_true_iff]
  constructor
  · rintro ⟨front, c, rest, taken, rfl, htaken⟩
    obtain ⟨rfl, body, rfl, hclose⟩ :=
      comment_isSome_iff.mp (Option.isSome_iff_exists.mpr ⟨taken, htaken⟩)
    exact (hasComment_opening hclose).append front
  · rintro ⟨front, body, behind, rfl⟩
    have hclose : Text.contains (body ++ (commentClose ++ behind)) commentClose = true :=
      Text.contains_iff.mpr ⟨body, behind, rfl⟩
    have hsome : (comment front.getLast? (.char '/')
        (.char '*' :: (body ++ (commentClose ++ behind)))).isSome = true :=
      comment_isSome_iff.mpr ⟨rfl, _, rfl, hclose⟩
    obtain ⟨taken, htaken⟩ := Option.isSome_iff_exists.mp hsome
    rw [commented_append]
    exact ⟨front, .char '/', _, taken, rfl, htaken⟩

theorem stripComments_eq_self_iff_not_hasComment : stripComments s = s ↔ ¬ HasComment s := by
  rw [stripComments_eq_self_iff, ← Bool.not_eq_true, occursIn_comment_iff]

/-! ## Marks that come together -/

/-- A slash outside all comments stands before one comment or several in a row, and a star right
behind them; and the rest, its own comments stripped, has an end mark. -/
def JoinsComment (s : Text) : Prop :=
  ∃ before bodies behind,
    s = before ++ .char '/' :: (bodies.flatMap commented ++ .char '*' :: behind) ∧
    leavesCommentOpen before = false ∧ bodies ≠ [] ∧
    (∀ body ∈ bodies, Text.contains body commentClose = false) ∧
    Text.contains (stripComments behind) commentClose = true

theorem leavesCommentOpen_commented {body : Text} (h : Text.contains body commentClose = false)
    (s : Text) : leavesCommentOpen (commented body ++ s) = leavesCommentOpen s := by
  rw [leavesCommentOpen, pieces_commented h]
  rfl

theorem leavesCommentOpen_plain {c : CodePoint}
    (h : c = .char '/' → s.head? ≠ some (.char '*')) :
    leavesCommentOpen (c :: s) = leavesCommentOpen s := by
  rw [leavesCommentOpen, pieces_comment_of_none (comment_of_not_opening h none), leavesCommentOpen]
  cases s with
  | nil =>
    rw [opensComment]
    rintro _ _ ⟨⟩
  | cons x s =>
    rw [opensComment]
    intro more hslash hstar
    obtain rfl := Piece.plain.inj hslash
    refine h rfl ?_
    cases hx : comment none x s with
    | none =>
      rw [pieces_comment_of_none hx] at hstar
      rw [Piece.plain.inj (List.cons.inj hstar).1]
      rfl
    | some taken =>
      rw [pieces_comment_of_some hx] at hstar
      cases hstar

theorem stripComments_commenteds {bodies : List Text}
    (h : ∀ body ∈ bodies, Text.contains body commentClose = false) (rest : Text) :
    stripComments (bodies.flatMap commented ++ rest) = stripComments rest := by
  induction bodies with
  | nil => rfl
  | cons body bodies ih =>
    obtain ⟨hbody, hbodies⟩ := List.forall_mem_cons.mp h
    rw [List.flatMap_cons, List.append_assoc, stripComments_commented hbody, ih hbodies]

theorem head?_commenteds {bodies : List Text} (h : bodies ≠ []) (rest : Text) :
    (bodies.flatMap commented ++ rest).head? = some (.char '/') := by
  obtain ⟨body, bodies, rfl⟩ := List.exists_cons_of_ne_nil h
  rw [List.flatMap_cons, List.append_assoc, commented_append]
  rfl

/-- A star that a stripped text begins with stood behind comments alone. -/
theorem exists_of_stripComments_eq_star {rest : Text}
    (h : stripComments s = .char '*' :: rest) :
    ∃ (bodies : List Text) (behind : Text), s = bodies.flatMap commented ++ .char '*' :: behind ∧
      (∀ body ∈ bodies, Text.contains body commentClose = false) ∧
      rest = stripComments behind := by
  induction s using comment_induction with
  | nil => cases h
  | complete body s hbody ih =>
    rw [stripComments_commented hbody] at h
    obtain ⟨bodies, behind, rfl, hbodies, hrest⟩ := ih h
    refine ⟨body :: bodies, behind, ?_, List.forall_mem_cons.mpr ⟨hbody, hbodies⟩, hrest⟩
    rw [List.flatMap_cons, List.append_assoc]
  | unclosed body hbody =>
    rw [stripComments_unclosed hbody] at h
    cases h
  | plain c s hplain _ =>
    rw [stripComments_plain hplain] at h
    obtain ⟨rfl, rfl⟩ := List.cons.inj h
    exact ⟨[], s, rfl, by simp, rfl⟩

theorem joinsComment_commented {body : Text} (hbody : Text.contains body commentClose = false)
    (h : JoinsComment s) : JoinsComment (commented body ++ s) := by
  obtain ⟨before, bodies, behind, rfl, hbefore, hjoined⟩ := h
  refine ⟨commented body ++ before, bodies, behind, ?_, ?_, hjoined⟩
  · rw [List.append_assoc]
  · rw [leavesCommentOpen_commented hbody, hbefore]

theorem joinsComment_plain {c : CodePoint} (hc : c = .char '/' → s.head? ≠ some (.char '*'))
    (h : JoinsComment s) : JoinsComment (c :: s) := by
  obtain ⟨before, bodies, behind, rfl, hbefore, hjoined⟩ := h
  refine ⟨c :: before, bodies, behind, rfl, ?_, hjoined⟩
  rw [leavesCommentOpen_plain, hbefore]
  intro hslash hstar
  refine hc hslash ?_
  obtain ⟨rest, rfl⟩ := List.head?_eq_some_iff.mp hstar
  rfl

/-- A comment is left exactly where marks come together. -/
theorem hasComment_stripComments_iff : HasComment (stripComments s) ↔ JoinsComment s := by
  constructor
  · intro h
    induction s using comment_induction with
    | nil => exact absurd h.contains_close (by decide)
    | complete body s hbody ih =>
      rw [stripComments_commented hbody] at h
      exact joinsComment_commented hbody (ih h)
    | unclosed body hbody =>
      rw [stripComments_unclosed hbody] at h
      exact absurd h (not_hasComment_unclosed hbody)
    | plain c s hplain ih =>
      rw [stripComments_plain hplain] at h
      rcases hasComment_cons h with h | ⟨rfl, rest, hstar, hclose⟩
      · exact joinsComment_plain hplain (ih h)
      · -- the slash is the last one before the comments that go
        obtain ⟨bodies, behind, rfl, hbodies, rfl⟩ := exists_of_stripComments_eq_star hstar
        refine ⟨[], bodies, behind, rfl, rfl, ?_, hbodies, hclose⟩
        rintro rfl
        exact hplain rfl rfl
  · rintro ⟨before, bodies, behind, rfl, hbefore, hne, hbodies, hclose⟩
    have hslash : stripComments (.char '/' :: (bodies.flatMap commented ++
        .char '*' :: behind)) = .char '/' :: .char '*' :: stripComments behind := by
      rw [stripComments_plain, stripComments_commenteds hbodies,
        stripComments_of_none (comment_none_of_ne (by decide) behind)]
      intro _
      rw [head?_commenteds hne]
      decide
    rw [stripComments_append hbefore (by simp), hslash]
    exact (hasComment_opening hclose).append _

/-! ## Corrections -/

/-- The second text is the first one with other characters in some places, none of them one of a
mark of comments. Nothing goes without something in its place. -/
inductive Overwritten : Text → Text → Prop where
  | nil : Overwritten [] []
  | keep (c : CodePoint) {s o : Text} (h : Overwritten s o) : Overwritten (c :: s) (c :: o)
  | put (lost : Text) {written s o : Text} (hne : written ≠ [])
      (hslash : .char '/' ∉ written) (hstar : .char '*' ∉ written) (h : Overwritten s o) :
      Overwritten (lost ++ s) (written ++ o)

namespace Overwritten

theorem keepAll (h : Overwritten s o) (front : Text) : Overwritten (front ++ s) (front ++ o) := by
  induction front with
  | nil => exact h
  | cons c front ih => exact .keep c ih

theorem append (h : Overwritten s o) {tail : Text} (hslash : .char '/' ∉ tail)
    (hstar : .char '*' ∉ tail) : Overwritten s (o ++ tail) := by
  induction h with
  | nil =>
    by_cases hne : tail = []
    · rw [hne]
      exact .nil
    · rw [List.nil_append, ← List.append_nil tail]
      exact .put [] hne hslash hstar .nil
  | keep c _ ih => exact .keep c ih
  | put lost hne hslash' hstar' _ ih =>
    rw [List.append_assoc]
    exact .put lost hne hslash' hstar' ih

/-- A character of a mark was there before, and nothing of what is behind it before it. -/
theorem split {t : Text} (h : Overwritten s t) {c : CodePoint}
    (hc : c = .char '/' ∨ c = .char '*') {front : Text} (ht : t = front ++ c :: o) :
    ∃ front' rest, s = front' ++ c :: rest ∧ Overwritten rest o ∧ (front = [] → front' = []) := by
  induction h generalizing front with
  | nil => simp at ht
  | @keep d s t h ih =>
    cases front with
    | nil =>
      obtain ⟨rfl, rfl⟩ := List.cons.inj ht
      exact ⟨[], s, rfl, h, fun _ => rfl⟩
    | cons x front =>
      obtain ⟨-, rfl⟩ := List.cons.inj ht
      obtain ⟨front', rest, rfl, hrest, -⟩ := ih rfl
      exact ⟨d :: front', rest, rfl, hrest, fun hnil => by cases hnil⟩
  | @put lost written s t hne hslash hstar h ih =>
    have hunwritten : c ∉ written := by
      rcases hc with rfl | rfl
      · exact hslash
      · exact hstar
    -- the character stands behind all that was written
    have hbehind : ∃ between, front = written ++ between ∧ t = between ++ c :: o := by
      rcases List.append_eq_append_iff.mp ht with ⟨between, hfront, hrest⟩ | ⟨more, hwritten, hco⟩
      · exact ⟨between, hfront, hrest⟩
      · cases more with
        | nil => exact ⟨[], by rw [hwritten, List.append_nil, List.append_nil], hco.symm⟩
        | cons x more =>
          obtain ⟨rfl, -⟩ := List.cons.inj hco
          exact absurd (by simp [hwritten]) hunwritten
    obtain ⟨between, rfl, hlater⟩ := hbehind
    obtain ⟨front', rest, rfl, hrest, -⟩ := ih hlater
    refine ⟨lost ++ front', rest, by rw [List.append_assoc], hrest, fun hnil => ?_⟩
    exact absurd (List.append_eq_nil_iff.mp hnil).1 hne

theorem head {c : CodePoint} (h : Overwritten s (c :: o)) (hc : c = .char '/' ∨ c = .char '*') :
    ∃ rest, s = c :: rest ∧ Overwritten rest o := by
  have hcons : c :: o = [] ++ c :: o := rfl
  obtain ⟨front', rest, rfl, hrest, hnil⟩ := h.split hc hcons
  rw [hnil rfl]
  exact ⟨rest, rfl, hrest⟩

/-- A comment that is there afterwards was there before. -/
theorem hasComment (h : Overwritten s o) (ho : HasComment o) : HasComment s := by
  obtain ⟨before, body, behind, rfl⟩ := ho
  rw [commented_append] at h
  obtain ⟨before', opened, rfl, hopened, -⟩ := h.split (Or.inl rfl) rfl
  obtain ⟨inside, rfl, hinside⟩ := hopened.head (Or.inr rfl)
  have hclosing : body ++ (commentClose ++ behind) =
      body ++ .char '*' :: .char '/' :: behind := rfl
  obtain ⟨body', closing, rfl, hslash, -⟩ := hinside.split (Or.inr rfl) hclosing
  obtain ⟨behind', rfl, -⟩ := hslash.head (Or.inl rfl)
  exact (hasComment_opening (Text.contains_iff.mpr ⟨body', behind', rfl⟩)).append before'

end Overwritten

theorem overwritten_insertSemicolons (s : Text) : Overwritten s (insertSemicolons s) := by
  refine insertSemicolons_relates .nil (fun c {s o} h => .keep c h) ?_ s
  intro decl more o _ _ h
  have hput : Overwritten more ([.char ';'] ++ o) :=
    .put [] (by simp) (by decide) (by decide) h
  exact hput.keepAll decl

theorem Respelt.overwritten {words : List Misspelling} (h : Respelt s words o) :
    Overwritten s o := by
  induction h with
  | nil => exact .nil
  | keep c _ ih => exact .keep c ih
  | @word entry hmem s o words _ ih =>
    have hletters := (misspellings_isNameChar entry hmem).2
    have hne : Text.ofString entry.right ≠ [] := by
      obtain ⟨hpos, hlen, hle⟩ := misspellings_length entry hmem
      rw [← List.length_pos_iff]
      omega
    refine .put _ hne ?_ ?_ ih
    · exact fun hslash => absurd (hletters _ hslash) (by decide)
    · exact fun hstar => absurd (hletters _ hstar) (by decide)

/-- A correction makes no comment. -/
theorem hasComment_of_corrected (h : HasComment (corrected s)) : HasComment s := by
  have hclosed : Overwritten (correctSpelling (insertSemicolons s)) (corrected s) := by
    rw [corrected, closeBlocks]
    split
    · refine (Respelt.refl _).overwritten.append ?_ ?_ <;>
        exact fun hmark => absurd (List.eq_of_mem_replicate hmark) (by decide)
    · exact (Respelt.refl _).overwritten
  have hspelt := (respelt_respeltBehind none (insertSemicolons s)).overwritten
  exact (overwritten_insertSemicolons s).hasComment (hspelt.hasComment (hclosed.hasComment h))

/-! ## What stripping leaves -/

/-- A stripped text has a comment left exactly if a slash and a star come together in it; otherwise
stripping it again changes nothing. In no other case is there a comment in the text that the rules
see, be it the stripped one or its correction. -/
theorem stripComments_leaves_joined_only (s : Text) :
    (HasComment (stripComments s) ↔ JoinsComment s) ∧
    (stripComments (stripComments s) = stripComments s ↔ ¬ JoinsComment s) ∧
    (HasComment (stripComments s) ∨ HasComment (correct (stripComments s)).text ↔
      JoinsComment s) := by
  refine ⟨hasComment_stripComments_iff, ?_, ?_⟩
  · rw [stripComments_eq_self_iff_not_hasComment, hasComment_stripComments_iff]
  · rw [← hasComment_stripComments_iff]
    constructor
    · rintro (h | h)
      · exact h
      · exact hasComment_of_corrected h
    · exact Or.inl

/-- A slash before a comment and a star behind it make another one. -/
theorem joined_comment_left :
    HasComment (stripComments (Text.ofString "//**/**/")) ∧
      stripComments (stripComments (Text.ofString "//**/**/")) ≠
        stripComments (Text.ofString "//**/**/") := by
  have hstripped : stripComments (Text.ofString "//**/**/") = commented [] ++ [] := by decide
  refine ⟨?_, by decide⟩
  rw [hstripped]
  exact ⟨[], [], [], rfl⟩

end TextTidy.Css
