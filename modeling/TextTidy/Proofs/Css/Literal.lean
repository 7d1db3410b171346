import TextTidy.Proofs.Css.Comment
import TextTidy.Proofs.Css.Quote

/-!
# String literals

A string literal is a quoted text on one line without a backslash, and quotes inside a comment do
not count. Where comments keep apart from quotes that are open, the literals of a stylesheet are
those of the stylesheet without its comments.
-/

namespace TextTidy.Css

/-! ## Literals -/

/-- Whether a code point may stand in a string literal. -/
def isLiteralChar (c : CodePoint) : Bool :=
  c != .char '"' && c != .char '\\' && c != .char '\n'

/-- A text between double quotes. -/
def inQuotes (body : Text) : Text := .char '"' :: (body ++ [.char '"'])

/-- A string literal or a comment. The match stands for the literal, or for nothing if it is a
comment. -/
def literal : Pattern (Option Text) := fun before c rest =>
  if c = .char '"' then
    let body := rest.takeWhile isLiteralChar
    match rest.dropWhile isLiteralChar with
    | .char '"' :: _ => some ⟨body.length + 1, some (inQuotes body)⟩
    | _ => none
  else (comment before c rest).map fun taken => ⟨taken.more, none⟩

/-- The string literals of a stylesheet, in order and with their quotes. -/
def literals (css : Text) : List Text := (literal.findAll css).filterMap id

/-- Whether no comment begins behind a double quote that is open on its line, where `inside` tells
whether one is open at first. -/
def commentsApartFrom : (inside : Bool) → List (Piece Unit) → Bool
  | _, [] => true
  | inside, .found _ :: rest => !inside && commentsApartFrom inside rest
  | inside, .plain c :: rest =>
    commentsApartFrom (if c = .char '"' then !inside else inside && isLiteralChar c) rest

/-- Quotes keep apart from what is taken away or written anew: no comment is taken away behind a
double quote that is open on its line, and no quoted text of what is left holds a line feed. -/
structure QuotesApart (raw : Text) : Prop where
  comments : commentsApartFrom false (comment.pieces raw) = true
  lines : ∀ body ∈ quotedTexts (stripComments raw), CodePoint.char '\n' ∉ body

theorem isLiteralChar_iff {c : CodePoint} :
    isLiteralChar c = true ↔ c ≠ .char '"' ∧ isBackslash c = false ∧ c ≠ .char '\n' := by
  simp [isLiteralChar, isBackslash, and_assoc]

/-! ## The scan for literals -/

theorem literal_before (before : Option CodePoint) (c : CodePoint) (rest : Text) :
    literal before c rest = literal none c rest := by
  rw [literal, literal, comment_before]

section

variable {c : CodePoint} {rest body tail : Text}

theorem literals_of_none (h : literal none c rest = none) :
    literals (c :: rest) = literals rest := by
  rw [literals, Pattern.findAll_cons_of_none literal_before h, literals]

theorem literals_of_some {taken : Taken (Option Text)} (h : literal none c rest = some taken) :
    literals (c :: rest) = taken.value.toList ++ literals (rest.drop taken.more) := by
  rw [literals, Pattern.findAll_cons_of_some literal_before h, literals]
  cases taken.value <;> rfl

/-- Behind an open quote a text is read as it stands up to the end of the literal or the line. -/
theorem pieces_comment_of_inside (hbody : ∀ c ∈ body, isLiteralChar c = true)
    (h : commentsApartFrom true (comment.pieces (body ++ tail)) = true) :
    comment.pieces (body ++ tail) = body.map .plain ++ comment.pieces tail ∧
      commentsApartFrom true (comment.pieces tail) = true := by
  induction body with
  | nil => exact ⟨rfl, h⟩
  | cons c body ih =>
    obtain ⟨hc, hbody⟩ := List.forall_mem_cons.mp hbody
    cases hcomment : comment none c (body ++ tail) with
    | none =>
      have hpieces := pieces_comment_of_none hcomment
      rw [List.cons_append, hpieces, commentsApartFrom, if_neg (isLiteralChar_iff.mp hc).1, hc]
        at h
      obtain ⟨hrest, happart⟩ := ih hbody h
      rw [List.cons_append, hpieces, hrest]
      exact ⟨rfl, happart⟩
    | some taken =>
      rw [List.cons_append, pieces_comment_of_some hcomment, commentsApartFrom] at h
      cases h

theorem stripComments_of_inside (hbody : ∀ c ∈ body, isLiteralChar c = true)
    (h : commentsApartFrom true (comment.pieces (body ++ tail)) = true) :
    stripComments (body ++ tail) = body ++ stripComments tail := by
  rw [stripComments, Pattern.replace, (pieces_comment_of_inside hbody h).1, List.flatMap_append,
    Pattern.flatMap_text_plain]
  rfl

theorem commentsApartFrom_plain (hbody : ∀ c ∈ body, c ≠ .char '"') (pieces : List (Piece Unit)) :
    commentsApartFrom false (body.map .plain ++ pieces) = commentsApartFrom false pieces := by
  induction body with
  | nil => rfl
  | cons c body ih =>
    obtain ⟨hc, hbody⟩ := List.forall_mem_cons.mp hbody
    rw [List.map_cons, List.cons_append, commentsApartFrom, if_neg hc]
    exact ih hbody

theorem comment_none_of_not_isLiteralChar (hc : isLiteralChar c = false) :
    comment none c rest = none := by
  refine comment_none_of_ne ?_ rest
  rintro rfl
  exact absurd hc (by decide)

/-- A quote that is open does not count any more behind a backslash, a line feed or at the end. -/
theorem inside_congr (htail : ∀ c ∈ tail.head?, isLiteralChar c = false ∧ c ≠ .char '"')
    (body : Text) :
    quotedFrom (!isLiteralChar ·) (some body) (stripComments tail) =
        quotedFrom (!isLiteralChar ·) none (stripComments tail) ∧
      commentsApartFrom true (comment.pieces tail) =
        commentsApartFrom false (comment.pieces tail) := by
  cases tail with
  | nil => exact ⟨rfl, rfl⟩
  | cons c tail =>
    obtain ⟨hc, hne⟩ := htail c rfl
    have hnone : comment none c tail = none := comment_none_of_not_isLiteralChar hc
    rw [stripComments_of_none hnone, pieces_comment_of_none hnone]
    simp [quotedFrom, commentsApartFrom, hne, hc]

/-- What a literal is read from, when a double quote opens it. -/
theorem literal_quote (hbody : ∀ c ∈ body, isLiteralChar c = true) :
    literal none (.char '"') (body ++ .char '"' :: tail) =
      some ⟨body.length + 1, some (inQuotes body)⟩ := by
  have hquote : isLiteralChar (.char '"') = false := by decide
  simp only [literal, if_true, Text.dropWhile_span hbody hquote, Text.takeWhile_span hbody hquote]

theorem literal_quote_of_ne (hbody : ∀ c ∈ body, isLiteralChar c = true)
    (htail : ∀ c ∈ tail.head?, isLiteralChar c = false ∧ c ≠ .char '"') :
    literal none (.char '"') (body ++ tail) = none := by
  cases tail with
  | nil =>
    rw [List.append_nil, literal, if_pos rfl, List.dropWhile_eq_nil_iff.mpr hbody]
  | cons c tail =>
    obtain ⟨hc, hne⟩ := htail c rfl
    simp only [literal, if_true, Text.dropWhile_span hbody hc]
    split
    · rename_i heq
      exact absurd (List.cons.inj heq).1 hne
    · rfl

/-- The literals are the quoted texts on one line of what is left of a text. -/
def LiteralsKept (raw : Text) : Prop :=
  literals raw = (quotedFrom (!isLiteralChar ·) none (stripComments raw)).map inQuotes

/-- A double quote that opens a literal. -/
theorem literalsKept_literal (hbody : ∀ c ∈ body, isLiteralChar c = true)
    (h : commentsApartFrom true (comment.pieces (body ++ .char '"' :: tail)) = true)
    (htail : commentsApartFrom false (comment.pieces tail) = true → LiteralsKept tail) :
    LiteralsKept (.char '"' :: (body ++ .char '"' :: tail)) := by
  have hquote : comment none (.char '"') tail = none := comment_none_of_ne (by decide) tail
  have hread : ∀ c ∈ body, c ≠ .char '"' ∧ (!isLiteralChar c) = false := fun c hc =>
    ⟨(isLiteralChar_iff.mp (hbody c hc)).1, by rw [hbody c hc]; rfl⟩
  have hstrip := stripComments_of_inside hbody h
  obtain ⟨-, happart⟩ := pieces_comment_of_inside hbody h
  rw [pieces_comment_of_none hquote, commentsApartFrom, if_pos rfl] at happart
  rw [LiteralsKept, literals_of_some (literal_quote hbody),
    stripComments_of_none (comment_none_of_ne (by decide) _), hstrip, stripComments_of_none hquote,
    quotedFrom, if_pos rfl, quotedFrom_some_append hread, quotedFrom, if_pos rfl, List.map_cons,
    ← htail happart]
  simp

/-- A double quote that opens none. -/
theorem literalsKept_stray (hbody : ∀ c ∈ body, isLiteralChar c = true)
    (htail : ∀ c ∈ tail.head?, isLiteralChar c = false ∧ c ≠ .char '"')
    (h : commentsApartFrom true (comment.pieces (body ++ tail)) = true)
    (hrest : commentsApartFrom false (comment.pieces (body ++ tail)) = true →
      LiteralsKept (body ++ tail)) :
    LiteralsKept (.char '"' :: (body ++ tail)) := by
  have hquote : ∀ c ∈ body, c ≠ .char '"' := fun c hc => (isLiteralChar_iff.mp (hbody c hc)).1
  obtain ⟨hpieces, happart⟩ := pieces_comment_of_inside hbody h
  -- the text is read as if the quote were not there
  have hread := hrest (by
    rw [hpieces, commentsApartFrom_plain hquote, ← (inside_congr htail []).2, happart])
  rw [LiteralsKept, literals_of_none (literal_quote_of_ne hbody htail), hread,
    stripComments_of_none (comment_none_of_ne (by decide) _), stripComments_of_inside hbody h,
    quotedFrom_none_append hquote, quotedFrom, if_pos rfl,
    quotedFrom_some_append fun c hc => ⟨hquote c hc, by rw [hbody c hc]; rfl⟩,
    (inside_congr htail _).1]

end

theorem literalsKept {raw : Text} (h : commentsApartFrom false (comment.pieces raw) = true) :
    LiteralsKept raw := by
  induction hn : raw.length using Nat.strongRecOn generalizing raw with
  | ind n ih =>
    subst hn
    cases raw with
    | nil => rfl
    | cons c rest =>
      by_cases hc : c = .char '"'
      · subst hc
        have hnone : comment none (.char '"') rest = none := comment_none_of_ne (by decide) rest
        rw [pieces_comment_of_none hnone, commentsApartFrom, if_pos rfl] at h
        rcases Text.exists_span isLiteralChar rest with hbody | ⟨body, x, tail, rfl, hbody, hx⟩
        · rw [← List.append_nil rest] at h ⊢
          exact literalsKept_stray hbody (by simp) h fun happart => ih _ (by simp) happart rfl
        · by_cases hquote : x = .char '"'
          · subst hquote
            refine literalsKept_literal hbody h fun happart => ih _ ?_ happart rfl
            simp only [List.length_cons, List.length_append]
            omega
          · exact literalsKept_stray hbody (by simpa using ⟨hx, hquote⟩) h fun happart =>
              ih _ (by simp) happart rfl
      · cases hcomment : comment none c rest with
        | none =>
          have hnone : literal none c rest = none := by rw [literal, if_neg hc, hcomment]; rfl
          rw [pieces_comment_of_none hcomment, commentsApartFrom, if_neg hc] at h
          rw [LiteralsKept, literals_of_none hnone, stripComments_of_none hcomment, quotedFrom,
            if_neg hc]
          exact ih _ (by simp) h rfl
        | some taken =>
          have hsome : literal none c rest = some ⟨taken.more, none⟩ := by
            rw [literal, if_neg hc, hcomment]
            rfl
          rw [pieces_comment_of_some hcomment, commentsApartFrom] at h
          rw [LiteralsKept, literals_of_some hsome, stripComments,
            Pattern.replace_cons_of_some comment_before hcomment]
          refine ih _ ?_ h rfl
          simp only [List.length_cons, List.length_drop]
          omega

/-! ## Quoted texts on one line -/

/-- Where no quoted text holds a line feed, it makes no difference that a line feed leaves no quote
open: if one is open behind a line feed, nothing closes it. -/
theorem quotedFrom_lines {s : Text} {body body' : Option Text}
    (hstate : body = body' ∨
      body = none ∧ ∃ front, body' = some front ∧ CodePoint.char '\n' ∈ front)
    (h : ∀ text ∈ quotedFrom isBackslash body' s, CodePoint.char '\n' ∉ text) :
    quotedFrom (!isLiteralChar ·) body s = quotedFrom isBackslash body' s := by
  induction s generalizing body body' with
  | nil => rfl
  | cons c s ih =>
    rcases hstate with rfl | ⟨rfl, front, rfl, hfront⟩
    · cases body with
      | none => exact ih (Or.inl rfl) h
      | some front =>
        rw [quotedFrom] at h ⊢
        by_cases hc : c = .char '"'
        · rw [if_pos hc] at h ⊢
          rw [quotedFrom, if_pos hc]
          exact congrArg (front :: ·) (ih (Or.inl rfl) fun text ht => h text (by simp [ht]))
        · rw [if_neg hc] at h ⊢
          rw [quotedFrom, if_neg hc]
          refine ih ?_ h
          by_cases hline : c = .char '\n'
          · subst hline
            exact Or.inr ⟨rfl, front ++ [.char '\n'], rfl, by simp⟩
          · left
            cases hback : isBackslash c <;> simp [isLiteralChar, hc, hline]
            · simpa [isBackslash] using hback
            · simpa [isBackslash] using hback
    · rw [quotedFrom] at h ⊢
      by_cases hc : c = .char '"'
      · rw [if_pos hc] at h
        exact absurd hfront (h front (by simp))
      · rw [if_neg hc] at h ⊢
        rw [quotedFrom, if_neg hc]
        refine ih ?_ h
        cases isBackslash c with
        | true => exact Or.inl rfl
        | false => exact Or.inr ⟨rfl, front ++ [c], rfl, by simp [hfront]⟩

/-- The literals of a text are the quoted texts of what is left of it without its comments. -/
theorem QuotesApart.literals_eq {raw : Text} (h : QuotesApart raw) :
    literals raw = (quotedTexts (stripComments raw)).map inQuotes := by
  rw [literalsKept h.comments, quotedTexts, quotedFrom_lines (Or.inl rfl) h.lines]

/-- What stands in a quoted text stands in the text. -/
theorem mem_of_mem_quotedFrom {breaks : CodePoint → Bool} {s text : Text} {body : Option Text}
    (h : text ∈ quotedFrom breaks body s) {c : CodePoint} (hc : c ∈ text) :
    c ∈ body.getD [] ∨ c ∈ s := by
  induction s generalizing body with
  | nil =>
    cases body <;> cases h
  | cons x s ih =>
    cases body with
    | none =>
      right
      rw [quotedFrom] at h
      rcases ih h with hfront | hrest
      · split at hfront <;> cases hfront
      · exact List.mem_cons_of_mem x hrest
    | some body =>
      rw [quotedFrom] at h
      split at h
      · rcases List.mem_cons.mp h with rfl | h
        · exact Or.inl hc
        · rcases ih h with hfront | hrest
          · cases hfront
          · exact Or.inr (List.mem_cons_of_mem x hrest)
      · rcases ih h with hfront | hrest
        · split at hfront
          · cases hfront
          · rcases List.mem_append.mp hfront with hbody | hlast
            · exact Or.inl hbody
            · exact Or.inr (List.mem_singleton.mp hlast ▸ List.mem_cons_self)
        · exact Or.inr (List.mem_cons_of_mem x hrest)

/-- Quotes keep apart in a text on one line without comments. -/
theorem QuotesApart.of_not_occursIn {s : Text} (hcomment : comment.occursIn s = false)
    (hline : CodePoint.char '\n' ∉ s) : QuotesApart s where
  comments := by
    have hpieces : comment.pieces s = s.map .plain := by
      rcases Pattern.piecesFrom_cases comment none s with ⟨h, -⟩ | ⟨pre, c, rest, taken, hs, h, -⟩
      · exact h
      · rw [Option.or_none, Pattern.occursIn_eq_false_iff.mp hcomment pre c rest hs] at h
        cases h
    have hplain : ∀ (inside : Bool) (s : Text),
        commentsApartFrom inside (s.map .plain) = true := by
      intro inside s
      induction s generalizing inside with
      | nil => rfl
      | cons c s ih => exact ih _
    rw [hpieces, hplain]
  lines text htext hmem := by
    rw [stripComments_eq_self_iff.mpr hcomment] at htext
    rcases mem_of_mem_quotedFrom htext hmem with h | h
    · cases h
    · exact hline h

end TextTidy.Css
