import TextTidy.Proofs.Css.Idle
import TextTidy.Proofs.Css.Quote

/-!
# Declarations that run on inside quotes

The semicolon pass writes into a quoted text where a declaration before or in it runs on into what
looks like the next property. Everywhere else it keeps the quoted texts, up to the semicolons before
closing braces that compaction takes away again.
-/

namespace TextTidy.Css

/-! ## Open quotes -/

/-- Whether a double quote is open behind a text, when `inside` tells whether one is open before. -/
def opensQuoteFrom (inside : Bool) (s : Text) : Bool :=
  s.foldl (fun inside c => if c = .char '"' then !inside else inside && !isBackslash c) inside

/-- Whether a double quote comes before any backslash. -/
def closesQuote (s : Text) : Bool := s.find? isQuoteMark == some (.char '"')

/-- Whether a declaration runs on into the next one within a quoted text, when `inside` tells
whether a double quote is open at first. -/
def RunsOnInQuotesFrom (inside : Bool) (s : Text) : Prop :=
  ∃ pre decl more, s = pre ++ decl ++ more ∧ IsDeclaration decl ∧ nextProperty more = true ∧
    opensQuoteFrom inside (pre ++ decl) = true ∧ closesQuote more = true

/-- Whether a declaration runs on into the next one within a quoted text. -/
def RunsOnInQuotes (s : Text) : Prop := RunsOnInQuotesFrom false s

section

variable {inside : Bool} {s t : Text}

theorem opensQuoteFrom_append (inside : Bool) (s t : Text) :
    opensQuoteFrom inside (s ++ t) = opensQuoteFrom (opensQuoteFrom inside s) t :=
  List.foldl_append

theorem opensQuoteFrom_markless (hs : Markless s) (inside : Bool) :
    opensQuoteFrom inside s = inside := by
  induction s generalizing inside with
  | nil => rfl
  | cons c s ih =>
    obtain ⟨hc, hs⟩ := markless_cons.mp hs
    obtain ⟨hquote, hback⟩ : c ≠ .char '"' ∧ isBackslash c = false := by
      simpa [isQuoteMark] using hc
    rw [opensQuoteFrom, List.foldl_cons, if_neg hquote, hback, Bool.not_false, Bool.and_true]
    exact ih hs inside

/-- A character that is no mark opens and closes nothing. -/
theorem opensQuoteFrom_insert {c : CodePoint} (hc : isQuoteMark c = false) (inside : Bool)
    (s t : Text) : opensQuoteFrom inside (s ++ c :: t) = opensQuoteFrom inside (s ++ t) := by
  have hnone := opensQuoteFrom_markless (markless_cons.mpr ⟨hc, markless_nil⟩)
  rw [List.append_cons, opensQuoteFrom_append, opensQuoteFrom_append (s := s), hnone,
    ← opensQuoteFrom_append]

theorem closesQuote_append_markless (hs : Markless s) (t : Text) :
    closesQuote (s ++ t) = closesQuote t := by
  have hnone : s.find? isQuoteMark = none := by simpa [Markless] using hs
  rw [closesQuote, List.find?_append, hnone, Option.none_or, closesQuote]

theorem closesQuote_cons {c : CodePoint} (hc : isQuoteMark c = false) (s : Text) :
    closesQuote (c :: s) = closesQuote s :=
  closesQuote_append_markless (markless_cons.mpr ⟨hc, markless_nil⟩) s

theorem RunsOnInQuotesFrom.append {front : Text}
    (h : RunsOnInQuotesFrom (opensQuoteFrom inside front) s) :
    RunsOnInQuotesFrom inside (front ++ s) := by
  obtain ⟨pre, decl, more, rfl, hdecl, hnext, hopen, hclose⟩ := h
  refine ⟨front ++ pre, decl, more, by simp, hdecl, hnext, ?_, hclose⟩
  rw [List.append_assoc, opensQuoteFrom_append, hopen]

end

/-! ## Texts with the same quoted texts -/

section

variable {s t u : Text} {body : Option Text}

/-- What is read of a text that goes on is decided by what is open where it does. -/
theorem quotedFrom_append_congr
    (h : ∀ body', body'.isSome = opensQuoteFrom body.isSome s →
      quotedFrom isBackslash body' t = quotedFrom isBackslash body' u) :
    quotedFrom isBackslash body (s ++ t) = quotedFrom isBackslash body (s ++ u) := by
  induction s generalizing body with
  | nil => exact h body rfl
  | cons c s ih =>
    rw [List.cons_append, List.cons_append]
    rw [opensQuoteFrom, List.foldl_cons, ← opensQuoteFrom] at h
    cases body with
    | none =>
      refine ih fun body' hbody' => h body' (hbody'.trans ?_)
      by_cases hc : c = .char '"' <;> simp [hc]
    | some body =>
      rw [quotedFrom, quotedFrom]
      by_cases hc : c = .char '"'
      · rw [if_pos hc, if_pos hc]
        exact congrArg (body :: ·) (ih fun body' hbody' => h body' (by simpa [hc] using hbody'))
      · rw [if_neg hc, if_neg hc]
        refine ih fun body' hbody' => h body' (hbody'.trans ?_)
        cases hback : isBackslash c <;> simp [hc]

/-- What has been read since a double quote that nothing closes does not count. -/
theorem quotedFrom_some_congr (h : closesQuote s = false) (body body' : Text) :
    quotedFrom isBackslash (some body) s = quotedFrom isBackslash (some body') s := by
  rcases exists_quoteMark s with hs | ⟨front, q, rest, rfl, hfront, hq⟩
  · have hnil := fun body => quotedFrom_append_markless hs (some body) []
    exact (hnil body).trans (hnil body').symm
  · rw [closesQuote_append_markless hfront, closesQuote, List.find?_cons_of_pos hq,
      beq_eq_false_iff_ne] at h
    rw [quotedFrom_some_append hfront.read, quotedFrom_some_append hfront.read]
    rcases isQuoteMark_iff.mp hq with rfl | rfl
    · exact absurd rfl h
    · rfl

/-- A character that is written where no quoted text goes on is not seen. -/
theorem quotedFrom_insert {c : CodePoint} (hc : isQuoteMark c = false)
    (h : opensQuoteFrom body.isSome s = true → closesQuote t = false) :
    quotedFrom isBackslash body (s ++ c :: t) = quotedFrom isBackslash body (s ++ t) := by
  obtain ⟨hquote, hback⟩ : c ≠ .char '"' ∧ isBackslash c = false := by
    simpa [isQuoteMark] using hc
  refine quotedFrom_append_congr fun body' hbody' => ?_
  cases body' with
  | none => rw [quotedFrom, if_neg hquote]
  | some body' =>
    rw [quotedFrom, if_neg hquote, hback]
    exact quotedFrom_some_congr (h hbody'.symm) _ _

/-- A quoted text that is open at the end of a text goes on behind it. -/
theorem exists_quotedFrom_append (h : opensQuoteFrom body.isSome s = true) :
    ∃ before body', ∀ t,
      quotedFrom isBackslash body (s ++ t) = before ++ quotedFrom isBackslash (some body') t := by
  induction s generalizing body with
  | nil =>
    obtain ⟨body', rfl⟩ := Option.isSome_iff_exists.mp h
    exact ⟨[], body', fun t => rfl⟩
  | cons c s ih =>
    rw [opensQuoteFrom, List.foldl_cons, ← opensQuoteFrom] at h
    cases body with
    | none =>
      have hnext : opensQuoteFrom (if c = .char '"' then some [] else none : Option Text).isSome s =
          true := by
        by_cases hc : c = .char '"' <;> simpa [hc] using h
      obtain ⟨before, body', hread⟩ := ih hnext
      exact ⟨before, body', hread⟩
    | some body =>
      by_cases hc : c = .char '"'
      · have hnext : opensQuoteFrom (none : Option Text).isSome s = true := by simpa [hc] using h
        obtain ⟨before, body', hread⟩ := ih hnext
        refine ⟨body :: before, body', fun t => ?_⟩
        rw [List.cons_append, quotedFrom, if_pos hc, hread]
        rfl
      · have hnext :
            opensQuoteFrom (if isBackslash c then none else some (body ++ [c])).isSome s = true := by
          cases hback : isBackslash c <;> simpa [hc, hback] using h
        obtain ⟨before, body', hread⟩ := ih hnext
        refine ⟨before, body', fun t => ?_⟩
        rw [List.cons_append, quotedFrom, if_neg hc, hread]

/-- A text in which a double quote is open and closed later has a quoted text around the place. -/
theorem exists_mem_quotedTexts (hopen : opensQuoteFrom false s = true)
    (hclose : closesQuote (t ++ u) = true) (ht : Markless t) :
    ∃ before behind, before ++ t ++ behind ∈ quotedTexts (s ++ (t ++ u)) := by
  have hinside : opensQuoteFrom (none : Option Text).isSome s = true := hopen
  obtain ⟨front, body, hread⟩ := exists_quotedFrom_append hinside
  rw [closesQuote_append_markless ht] at hclose
  rcases exists_quoteMark u with hu | ⟨behind, q, rest, rfl, hbehind, hq⟩
  · rw [← List.append_nil u, closesQuote_append_markless hu] at hclose
    cases hclose
  · rw [closesQuote_append_markless hbehind, closesQuote, List.find?_cons_of_pos hq, beq_iff_eq]
      at hclose
    obtain rfl := Option.some.inj hclose
    refine ⟨body, behind, ?_⟩
    rw [quotedTexts, hread, quotedFrom_some_append ht.read, quotedFrom_some_append hbehind.read,
      quotedFrom, if_pos rfl]
    simp

end

/-! ## The semicolon pass and quoted texts -/

section

variable {pre decl more rest : Text} {inside : Bool}

/-- Where no declaration runs on inside quotes, a semicolon that is written behind one is not in a
quoted text. -/
theorem not_closesQuote_of_not_runsOnInQuotes
    (h : ¬RunsOnInQuotesFrom inside (pre ++ decl ++ more)) (hdecl : IsDeclaration decl)
    (hnext : nextProperty more = true) (hopen : opensQuoteFrom inside (pre ++ decl) = true) :
    closesQuote more = false := by
  rw [← Bool.not_eq_true]
  exact fun hclose => h ⟨pre, decl, more, rfl, hdecl, hnext, hopen, hclose⟩

end

/-- Where no declaration runs on inside quotes, the semicolon pass keeps the quoted texts, but for
semicolons that compaction takes away. -/
theorem exists_idleEnded (s : Text) :
    ∃ t, IdleEnded t (insertSemicolons s) ∧ ∀ body : Option Text,
      ¬RunsOnInQuotesFrom body.isSome s →
        quotedFrom isBackslash body t = quotedFrom isBackslash body s := by
  have hsemi : isQuoteMark (.char ';') = false := by decide
  induction s using run_induction with
  | last run hrun =>
    refine ⟨insertSemicolons run, .refl _, fun body hbody => ?_⟩
    rcases insertSemicolons_last_run hrun with hsame | ⟨pre, decl, more, rfl, hdecl, hnext, hcut⟩
    · rw [hsame]
    · rw [hcut]
      exact quotedFrom_insert hsemi
        (not_closesQuote_of_not_runsOnInQuotes hbody hdecl hnext)
  | more run d rest hrun hd ih =>
    obtain ⟨t, ht, hquoted⟩ := ih
    -- what is behind the run is read alike if the same is open before it
    have hrest : ∀ {body : Option Text} {front : Text},
        ¬RunsOnInQuotesFrom body.isSome (run ++ d :: rest) →
        opensQuoteFrom body.isSome front = opensQuoteFrom body.isSome run →
        quotedFrom isBackslash body (front ++ d :: t) =
          quotedFrom isBackslash body (front ++ d :: rest) := by
      intro body front hbody hfront
      rw [List.append_cons front d t, List.append_cons front d rest]
      refine quotedFrom_append_congr fun body' hbody' => hquoted body' fun hruns => hbody ?_
      rw [hbody', opensQuoteFrom_append, hfront, ← opensQuoteFrom_append] at hruns
      rw [List.append_cons]
      exact hruns.append
    rw [insertSemicolons_append hd]
    rcases insertSemicolons_run_cases hrun hd with ⟨-, hsame⟩ |
      ⟨pre, decl, rfl, hdecl, rfl, hcut⟩ | ⟨pre, decl, more, rfl, hdecl, hnext, hcut⟩
    · refine ⟨run ++ d :: t, ?_, fun body hbody => hrest hbody rfl⟩
      rw [hsame, List.append_assoc]
      exact .same hrun hd ht
    · refine ⟨pre ++ decl ++ .char '}' :: t, ?_, fun body hbody => hrest hbody rfl⟩
      rw [hcut, List.append_assoc (pre ++ decl) [CodePoint.char ';', .char '}']]
      exact .ended hrun (hdecl.not_isBlank_append pre) ht
    · have hassoc : ∀ tail : Text, pre ++ decl ++ .char ';' :: more ++ d :: tail =
          pre ++ decl ++ .char ';' :: (more ++ d :: tail) := by simp
      refine ⟨pre ++ decl ++ .char ';' :: more ++ d :: t, ?_, fun body hbody => ?_⟩
      · obtain ⟨hfront, hmore⟩ := isRun_append.mp hrun
        have hended : pre ++ decl ++ .char ';' :: (more ++ [d]) ++ insertSemicolons rest =
            pre ++ decl ++ .char ';' :: (more ++ d :: insertSemicolons rest) := by simp
        rw [hcut, hassoc, hended]
        exact .same hfront (by decide) (.same hmore hd ht)
      · have hnext' := nextProperty_append hnext (d :: rest)
        rw [hrest hbody (opensQuoteFrom_insert hsemi _ _ _), hassoc, List.append_assoc (pre ++ decl)]
        rw [List.append_assoc (pre ++ decl)] at hbody
        exact quotedFrom_insert hsemi
          (not_closesQuote_of_not_runsOnInQuotes hbody hdecl hnext')

end TextTidy.Css
