import TextTidy.Proofs.Css.Verdict

/-!
# Comments and the text around them

The scan for comments reads a text up to the end of a complete comment without looking further. So a
text that leaves no comment open is stripped on its own, whatever is behind it, and a complete
comment goes with all that it says.
-/

namespace TextTidy.Css

/-! ## The end of a comment -/

theorem commentEnd?_cons {c : CodePoint} {rest : Text}
    (h : c = .char '*' → rest.head? ≠ some (.char '/')) :
    commentEnd? (c :: rest) = (commentEnd? rest).map (· + 1) := by
  rw [commentEnd?]
  rintro _ rfl rfl
  exact h rfl rfl

/-- Where a comment ends does not depend on what is behind its end. -/
theorem commentEnd?_append {body : Text} {n : Nat} (h : commentEnd? body = some n) (more : Text) :
    commentEnd? (body ++ more) = some n ∧ n ≤ body.length := by
  induction body generalizing n with
  | nil => cases h
  | cons c body ih =>
    by_cases hend : c = .char '*' ∧ body.head? = some (.char '/')
    · obtain ⟨rfl, hslash⟩ := hend
      obtain ⟨rest, rfl⟩ := List.head?_eq_some_iff.mp hslash
      obtain rfl : 2 = n := Option.some.inj h
      exact ⟨rfl, by simp⟩
    · rw [commentEnd?_cons fun hc hslash => hend ⟨hc, hslash⟩] at h
      obtain ⟨m, hm, rfl⟩ := Option.map_eq_some_iff.mp h
      obtain ⟨hmore, hle⟩ := ih hm
      have hstep : c = .char '*' → (body ++ more).head? ≠ some (.char '/') := by
        rintro rfl hslash
        cases body with
        | nil => cases hm
        | cons x body => exact hend ⟨rfl, hslash⟩
      rw [List.cons_append, commentEnd?_cons hstep, hmore]
      exact ⟨rfl, Nat.succ_le_succ hle⟩

/-- The end mark of comments. -/
def commentClose : Text := Text.ofString "*/"

/-- A body without the end mark runs to the first mark behind it. -/
theorem commentEnd?_body {body : Text} (h : Text.contains body commentClose = false)
    (rest : Text) : commentEnd? (body ++ (commentClose ++ rest)) = some (body.length + 2) := by
  induction body with
  | nil => rfl
  | cons c body ih =>
    rw [Text.contains, Bool.or_eq_false_iff] at h
    obtain ⟨hstart, hbody⟩ := h
    have hstep : c = .char '*' →
        (body ++ (commentClose ++ rest)).head? ≠ some (.char '/') := by
      rintro rfl hslash
      cases body with
      | nil =>
        have hsame : CodePoint.char '*' = .char '/' := Option.some.inj hslash
        exact absurd hsame (by decide)
      | cons x body =>
        obtain rfl : x = .char '/' := Option.some.inj hslash
        have hopens : Text.startsWith (commentClose ++ body) commentClose = true :=
          List.isPrefixOf_iff_prefix.mpr (List.prefix_append _ _)
        exact absurd (hopens.symm.trans hstart) Bool.noConfusion
    rw [List.cons_append, commentEnd?_cons hstep, ih hbody]
    rfl

/-! ## Texts that leave no comment open -/

theorem comment_before (before : Option CodePoint) (c : CodePoint) (rest : Text) :
    comment before c rest = comment none c rest := by
  unfold comment
  split <;> simp_all

theorem comment_of_not_opening {c : CodePoint} {rest : Text}
    (h : c = .char '/' → rest.head? ≠ some (.char '*')) (before : Option CodePoint) :
    comment before c rest = none := by
  rw [comment]
  rintro body rfl rfl
  exact h rfl rfl

theorem comment_none_of_ne {c : CodePoint} (hc : c ≠ .char '/') (rest : Text) :
    comment none c rest = none :=
  comment_of_not_opening (fun h => absurd h hc) none

theorem pieces_comment_of_none {c : CodePoint} {rest : Text} (h : comment none c rest = none) :
    comment.pieces (c :: rest) = .plain c :: comment.pieces rest := by
  rw [Pattern.pieces, Pattern.piecesFrom_of_none h, Pattern.piecesFrom_before comment_before]

theorem pieces_comment_of_some {c : CodePoint} {rest : Text} {taken : Taken Unit}
    (h : comment none c rest = some taken) :
    comment.pieces (c :: rest) = .found () :: comment.pieces (rest.drop taken.more) := by
  rw [Pattern.pieces, Pattern.piecesFrom_of_some h, Pattern.piecesFrom_drop,
    Pattern.piecesFrom_before comment_before]

theorem stripComments_of_none {c : CodePoint} {rest : Text} (h : comment none c rest = none) :
    stripComments (c :: rest) = c :: stripComments rest :=
  Pattern.replace_cons_of_none comment_before h

theorem comment_append {before : Option CodePoint} {c : CodePoint} {rest : Text}
    {taken : Taken Unit} (h : comment before c rest = some taken) (more : Text) :
    comment before c (rest ++ more) = some taken ∧ taken.more ≤ rest.length := by
  by_cases hopen : c = .char '/' ∧ rest.head? = some (.char '*')
  · obtain ⟨rfl, hstar⟩ := hopen
    obtain ⟨body, rfl⟩ := List.head?_eq_some_iff.mp hstar
    obtain ⟨n, hn, rfl⟩ := Option.map_eq_some_iff.mp h
    obtain ⟨hmore, hle⟩ := commentEnd?_append hn more
    refine ⟨?_, Nat.succ_le_succ hle⟩
    show (commentEnd? (body ++ more)).map _ = _
    rw [hmore]
    rfl
  · rw [comment_of_not_opening fun hc hstar => hopen ⟨hc, hstar⟩] at h
    cases h

/-- Whether the opening mark of a comment is among the characters outside all matches. -/
def opensComment : List (Piece Unit) → Bool
  | [] => false
  | .plain (.char '/') :: .plain (.char '*') :: _ => true
  | _ :: rest => opensComment rest

/-- Whether behind the complete comments of a text another one opens that does not end. -/
def leavesCommentOpen (s : Text) : Bool := opensComment (comment.pieces s)

theorem opensComment_of_cons {piece : Piece Unit} {rest : List (Piece Unit)}
    (h : opensComment (piece :: rest) = false) : opensComment rest = false := by
  unfold opensComment at h
  split at h
  · contradiction
  · contradiction
  · simp_all

/-- Where the pattern does not match and leaves no opening mark, it does not match in front of more
text either, unless that begins with a star. -/
theorem comment_none_append {before : Option CodePoint} {c : CodePoint} {rest : Text}
    (hnone : comment before c rest = none)
    (hopen : opensComment (comment.piecesFrom before 0 (c :: rest)) = false) {tail : Text}
    (htail : tail.head? ≠ some (.char '*')) : comment before c (rest ++ tail) = none := by
  refine comment_of_not_opening ?_ before
  rintro rfl hstar
  cases rest with
  | nil => exact htail hstar
  | cons x rest =>
    -- the opening mark stands outside all matches, with the star behind it
    obtain rfl : x = .char '*' := Option.some.inj hstar
    have hstarNone : comment (some (.char '/')) (.char '*') rest = none :=
      comment_of_not_opening (fun hslash => absurd hslash (by decide)) _
    rw [Pattern.piecesFrom_of_none hnone, Pattern.piecesFrom_of_none hstarNone] at hopen
    cases hopen

/-- Before a text that does not begin with a star, a text that leaves no comment open is scanned on
its own. -/
theorem piecesFrom_comment_append {tail : Text} (htail : tail.head? ≠ some (.char '*')) {a : Text}
    {before : Option CodePoint} (h : opensComment (comment.piecesFrom before 0 a) = false) :
    comment.piecesFrom before 0 (a ++ tail) =
      comment.piecesFrom before 0 a ++ comment.pieces tail := by
  induction hn : a.length using Nat.strongRecOn generalizing a before with
  | ind n ih =>
    subst hn
    cases a with
    | nil =>
      rw [List.nil_append, Pattern.piecesFrom_before comment_before]
      rfl
    | cons c rest =>
      cases hc : comment before c rest with
      | some taken =>
        obtain ⟨hlonger, hle⟩ := comment_append hc tail
        have hshorter : (rest.drop taken.more).length < (c :: rest).length := by
          rw [List.length_drop, List.length_cons]
          omega
        have hcut := Pattern.piecesFrom_drop comment (some c) taken.more rest
        have hcut' := Pattern.piecesFrom_drop comment (some c) taken.more (rest ++ tail)
        rw [List.drop_append_of_le_length hle, List.take_append_of_le_length hle] at hcut'
        rw [Pattern.piecesFrom_of_some hc, hcut] at h
        rw [Pattern.piecesFrom_of_some hc, hcut, List.cons_append,
          Pattern.piecesFrom_of_some hlonger, hcut',
          ih _ hshorter (opensComment_of_cons h) rfl]
        rfl
      | none =>
        have hnone := comment_none_append hc h htail
        rw [Pattern.piecesFrom_of_none hc] at h ⊢
        rw [List.cons_append, Pattern.piecesFrom_of_none hnone,
          ih _ (by simp) (opensComment_of_cons h) rfl]
        rfl

theorem pieces_comment_append {a : Text} (h : leavesCommentOpen a = false) {tail : Text}
    (htail : tail.head? ≠ some (.char '*')) :
    comment.pieces (a ++ tail) = comment.pieces a ++ comment.pieces tail :=
  piecesFrom_comment_append htail h

theorem stripComments_append {a : Text} (h : leavesCommentOpen a = false) {tail : Text}
    (htail : tail.head? ≠ some (.char '*')) :
    stripComments (a ++ tail) = stripComments a ++ stripComments tail := by
  rw [stripComments, Pattern.replace, pieces_comment_append h htail, List.flatMap_append]
  rfl

/-! ## Texts without complete comments -/

theorem stripComments_eq_self_iff {s : Text} :
    stripComments s = s ↔ comment.occursIn s = false :=
  Pattern.erase_eq_self_iff

theorem commentEnd?_of_append {body tail : Text} (htail : .char '/' ∉ tail)
    (h : (commentEnd? (body ++ tail)).isSome = true) : (commentEnd? body).isSome = true := by
  induction body with
  | nil =>
    exfalso
    induction tail with
    | nil => cases h
    | cons c tail ih =>
      rw [List.mem_cons, not_or] at htail
      have hstep : c = .char '*' → tail.head? ≠ some (.char '/') := by
        rintro - hslash
        exact htail.2 (List.mem_of_head? hslash)
      rw [List.nil_append, commentEnd?_cons hstep, Option.isSome_map] at h
      exact ih htail.2 h
  | cons c body ih =>
    by_cases hend : c = .char '*' ∧ body.head? = some (.char '/')
    · obtain ⟨rfl, hslash⟩ := hend
      obtain ⟨rest, rfl⟩ := List.head?_eq_some_iff.mp hslash
      rfl
    · have hstep : c = .char '*' → (body ++ tail).head? ≠ some (.char '/') := by
        rintro hc hslash
        cases body with
        | nil => exact htail (List.mem_of_head? hslash)
        | cons x body => exact hend ⟨hc, hslash⟩
      rw [List.cons_append, commentEnd?_cons hstep, Option.isSome_map] at h
      rw [commentEnd?_cons fun hc hslash => hend ⟨hc, hslash⟩, Option.isSome_map]
      exact ih h

/-- Behind a text without complete comments a text without their marks makes none complete. -/
theorem stripComments_append_of_markless {s tail : Text} (hslash : .char '/' ∉ tail)
    (hstar : .char '*' ∉ tail) (h : stripComments s = s) :
    stripComments (s ++ tail) = s ++ tail := by
  rw [stripComments_eq_self_iff, ← Bool.not_eq_true] at h
  rw [stripComments_eq_self_iff, ← Bool.not_eq_true]
  intro hfound
  obtain ⟨pre, c, rest, taken, hs, htaken⟩ := Pattern.occursIn_eq_true_iff.mp hfound
  by_cases hopen : c = .char '/' ∧ rest.head? = some (.char '*')
  · obtain ⟨rfl, hhead⟩ := hopen
    obtain ⟨body, rfl⟩ := List.head?_eq_some_iff.mp hhead
    obtain ⟨n, hn, -⟩ := Option.map_eq_some_iff.mp htaken
    rcases List.append_eq_append_iff.mp hs with ⟨front, -, htail⟩ | ⟨front, rfl, hfront⟩
    · exact hslash (by simp [htail])
    · rcases front with _ | ⟨x, _ | ⟨y, front⟩⟩
      · rw [List.nil_append] at hfront
        exact hslash (hfront ▸ List.mem_cons_self)
      · have htail : CodePoint.char '*' :: body = tail := (List.cons.inj hfront).2
        exact hstar (htail ▸ List.mem_cons_self)
      · obtain ⟨rfl, hbody⟩ := List.cons.inj hfront
        obtain ⟨rfl, rfl⟩ := List.cons.inj hbody
        obtain ⟨m, hm⟩ := Option.isSome_iff_exists.mp
          (commentEnd?_of_append hslash (Option.isSome_iff_exists.mpr ⟨n, hn⟩))
        refine h (Pattern.occursIn_eq_true_iff.mpr
          ⟨pre, .char '/', .char '*' :: front, ⟨m + 1, ()⟩, rfl, ?_⟩)
        show (commentEnd? front).map _ = _
        rw [hm]
        rfl
  · rw [comment_of_not_opening fun hc hhead => hopen ⟨hc, hhead⟩] at htaken
    cases htaken

/-! ## Complete comments -/

/-- The comment with a body. -/
def commented (body : Text) : Text := Text.ofString "/*" ++ (body ++ commentClose)

theorem commented_append (body rest : Text) :
    commented body ++ rest = .char '/' :: .char '*' :: (body ++ (commentClose ++ rest)) := by
  rw [commented, List.append_assoc, List.append_assoc]
  rfl

theorem pieces_commented {body : Text} (h : Text.contains body commentClose = false) (b : Text) :
    comment.pieces (commented body ++ b) = .found () :: comment.pieces b := by
  have hfound : comment none (.char '/') (.char '*' :: (body ++ (commentClose ++ b))) =
      some ⟨body.length + 2 + 1, ()⟩ := by
    show (commentEnd? (body ++ (commentClose ++ b))).map _ = _
    rw [commentEnd?_body h]
    rfl
  have hdrop : (CodePoint.char '*' :: (body ++ (commentClose ++ b))).drop (body.length + 2 + 1) =
      b := by
    rw [List.drop_succ_cons, List.drop_length_add_append]
    rfl
  rw [commented_append, pieces_comment_of_some hfound, hdrop]

theorem stripComments_commented {body : Text} (h : Text.contains body commentClose = false)
    (b : Text) : stripComments (commented body ++ b) = stripComments b := by
  rw [stripComments, Pattern.replace, pieces_commented h]
  rfl

/-- What comes of a raw text is decided by its being blank or not and by what is left of it without
its comments. -/
theorem tidy_congr {raw raw' : Text} (hblank : Text.isBlank raw = Text.isBlank raw')
    (hstripped : stripComments raw = stripComments raw') : tidy raw = tidy raw' := by
  rw [tidy, tidy, tidy?, tidy?, attempt, attempt, hblank, hstripped]

/-- What a comment says is without influence on what comes of a text, as long as the text before it
leaves no other comment open. -/
theorem tidy_comment_body_irrelevant (a b body body' : Text) (ha : leavesCommentOpen a = false)
    (hbody : Text.contains body commentClose = false)
    (hbody' : Text.contains body' commentClose = false) :
    tidy (a ++ (commented body ++ b)) = tidy (a ++ (commented body' ++ b)) := by
  have hblank : ∀ body, Text.isBlank (a ++ (commented body ++ b)) = false := by
    intro body
    have hslash : CodePoint.char '/' ∈ a ++ (commented body ++ b) := by
      simp [commented, Text.ofString]
    rw [← Bool.not_eq_true]
    intro h
    exact absurd (Text.isBlank_iff.mp h _ hslash) (by decide)
  have hhead : ∀ body, (commented body ++ b).head? ≠ some (.char '*') := by
    intro body hstar
    have hsame : CodePoint.char '/' = .char '*' := Option.some.inj hstar
    exact absurd hsame (by decide)
  have hstrip : ∀ {body}, Text.contains body commentClose = false →
      stripComments (a ++ (commented body ++ b)) = stripComments a ++ stripComments b := by
    intro body hbody
    rw [stripComments_append ha (hhead body), stripComments_commented hbody]
  refine tidy_congr ?_ ?_
  · rw [hblank, hblank]
  · rw [hstrip hbody, hstrip hbody']

/-- A body that opens a comment and holds a brace, beside one that ends with a star. -/
theorem tidy_comment_body_irrelevant_brace_and_star :
    leavesCommentOpen (Text.ofString "/*/**/a\x7bb:c;/") = false ∧
      tidy (Text.ofString "/*/**/a\x7bb:c;/" ++ (commented (Text.ofString "/*\x7d;") ++
          Text.ofString "*d:e;\x7d")) =
        tidy (Text.ofString "/*/**/a\x7bb:c;/" ++ (commented (Text.ofString "colr:*") ++
          Text.ofString "*d:e;\x7d")) := by
  have hopen : leavesCommentOpen (Text.ofString "/*/**/a\x7bb:c;/") = false := by decide
  exact ⟨hopen, tidy_comment_body_irrelevant _ _ _ _ hopen (by decide) (by decide)⟩

end TextTidy.Css
