import TextTidy.Proofs.Css.Brace
import TextTidy.Proofs.Css.Declaration

/-!
# Well-formed blocks, read from left to right

The check for well-formed declarations first cuts out the innermost blocks and then cuts each one at
its semicolons. Both cuts can be made in one pass: a reader remembers whether it is in a block that
may still turn out to be an innermost one, whether all parts of it that have ended are sound, and
the part that has not ended yet.
-/

namespace TextTidy.Css

/-! ## Innermost blocks -/

theorem block_before (before : Option CodePoint) (c : CodePoint) (rest : Text) :
    block before c rest = block none c rest := by
  by_cases hc : c = .char '{'
  · subst hc
    simp only [block]
  · have hnone : ∀ before, block before c rest = none := by
      intro before
      rw [block]
      rintro rfl
      exact hc rfl
    rw [hnone before, hnone none]

theorem blocks_cons_of_ne {c : CodePoint} (hc : c ≠ .char '{') (rest : Text) :
    blocks (c :: rest) = blocks rest := by
  refine Pattern.findAll_cons_of_none block_before ?_
  rw [block]
  rintro rfl
  exact hc rfl

theorem blocks_braceless {s : Text} (hs : Braceless s) (rest : Text) :
    blocks (s ++ rest) = blocks rest := by
  induction s with
  | nil => rfl
  | cons c s ih =>
    obtain ⟨hbrace, hs⟩ := braceless_cons.mp hs
    have hc : c ≠ .char '{' := by
      rintro rfl
      exact absurd hbrace (by decide)
    rw [List.cons_append, blocks_cons_of_ne hc]
    exact ih hs

theorem blocks_closed {body : Text} (hbody : Braceless body) (rest : Text) :
    blocks (.char '{' :: (body ++ .char '}' :: rest)) = body :: blocks rest := by
  have hspan : ∀ x ∈ body, (!isBrace x) = true := by simpa [Braceless] using hbody
  have hblock : block none (.char '{') (body ++ .char '}' :: rest) =
      some ⟨body.length + 1, body⟩ := by
    simp only [block, Text.takeWhile_span (c := .char '}') hspan (by decide),
      Text.dropWhile_span (c := .char '}') hspan (by decide)]
  have hdrop : (body ++ .char '}' :: rest).drop (body.length + 1) = rest := by
    rw [List.drop_length_add_append]
    rfl
  rw [blocks, Pattern.findAll_cons_of_some block_before hblock, hdrop]
  rfl

/-- A block that another one opens in, or that never ends, is not an innermost one. -/
theorem blocks_reopened {body : Text} (hbody : Braceless body) {rest : Text}
    (hrest : ∀ c ∈ rest.head?, c = .char '{') :
    blocks (.char '{' :: (body ++ rest)) = blocks rest := by
  have hspan : ∀ x ∈ body, (!isBrace x) = true := by simpa [Braceless] using hbody
  have hnone : block none (.char '{') (body ++ rest) = none := by
    cases rest with
    | nil =>
      simp only [block, List.append_nil, List.dropWhile_eq_nil_iff.mpr hspan]
    | cons c rest =>
      obtain rfl : c = .char '{' := hrest c rfl
      simp only [block, Text.dropWhile_span (c := .char '{') hspan (by decide)]
      rfl
  rw [blocks, Pattern.findAll_cons_of_none block_before hnone]
  exact blocks_braceless hbody rest

/-- An opening brace makes a block with the next brace if that one closes it; nothing else does. -/
theorem blocks_cons_cases (c : CodePoint) (s : Text) :
    (∃ body rest, Braceless body ∧ c = .char '{' ∧ s = body ++ .char '}' :: rest ∧
      blocks (c :: s) = body :: blocks s) ∨
    ((¬ ∃ body rest, Braceless body ∧ c = .char '{' ∧ s = body ++ .char '}' :: rest) ∧
      blocks (c :: s) = blocks s) := by
  by_cases hc : c = .char '{'
  · subst hc
    rcases Text.exists_span (fun c => !isBrace c) s with hs | ⟨body, d, rest, rfl, hs, hd⟩
    · have hfree : Braceless s := by simpa [Braceless] using hs
      have hnone := blocks_braceless hfree []
      have hopen : blocks (.char '{' :: (s ++ [])) = blocks [] := blocks_reopened hfree (by simp)
      rw [List.append_nil] at hnone hopen
      refine Or.inr ⟨?_, by rw [hnone, hopen]⟩
      rintro ⟨body, rest, -, -, rfl⟩
      exact absurd (braceless_append.mp hfree).2 (by simp [Braceless, isBrace])
    · have hbody : Braceless body := by simpa [Braceless] using hs
      rcases isBrace_iff.mp (by simpa using hd) with rfl | rfl
      · refine Or.inr ⟨?_, by rw [blocks_reopened hbody (by simp), blocks_braceless hbody]⟩
        rintro ⟨body', rest', hbody', -, heq⟩
        have hs' : ∀ x ∈ body', (!isBrace x) = true := by simpa [Braceless] using hbody'
        have hcut := congrArg (List.dropWhile (!isBrace ·)) heq
        rw [Text.dropWhile_span hs (by decide), Text.dropWhile_span hs' (by decide)] at hcut
        cases hcut
      · refine Or.inl ⟨body, rest, hbody, rfl, rfl, ?_⟩
        rw [blocks_closed hbody, blocks_braceless hbody, blocks_cons_of_ne (by decide)]
  · refine Or.inr ⟨?_, blocks_cons_of_ne hc s⟩
    rintro ⟨body, rest, -, hopen, -⟩
    exact hc hopen

/-- The blocks of the rest of a text are the last blocks of the text. -/
theorem exists_blocks_cons (c : CodePoint) (s : Text) :
    ∃ first, blocks (c :: s) = first ++ blocks s := by
  rcases blocks_cons_cases c s with ⟨body, rest, -, -, -, hblocks⟩ | ⟨-, hblocks⟩
  · exact ⟨[body], hblocks⟩
  · exact ⟨[], hblocks⟩

/-- Braces around a text without braces make a block of it, wherever they stand. -/
theorem mem_blocks {body : Text} (hbody : Braceless body) (outer post : Text) :
    body ∈ blocks (outer ++ .char '{' :: (body ++ .char '}' :: post)) := by
  induction outer with
  | nil =>
    rw [List.nil_append, blocks_closed hbody]
    exact List.mem_cons_self
  | cons c outer ih =>
    obtain ⟨first, hfirst⟩ :=
      exists_blocks_cons c (outer ++ .char '{' :: (body ++ .char '}' :: post))
    rw [List.cons_append, hfirst]
    exact List.mem_append_right first ih

/-! ## The parts of a block -/

theorem splitOn_append (a b : Text) :
    Text.splitOn (.char ';') (a ++ .char ';' :: b) =
      Text.splitOn (.char ';') a ++ Text.splitOn (.char ';') b := by
  induction a with
  | nil => simp [Text.splitOn]
  | cons c a ih =>
    rw [List.cons_append, Text.splitOn, Text.splitOn, ih]
    by_cases hc : c = .char ';'
    · simp [hc]
    · cases ha : Text.splitOn (.char ';') a with
      | nil => exact absurd ha (Text.splitOn_ne_nil _ _)
      | cons first others => simp [hc]

theorem splitOn_of_not_mem {part : Text} (h : .char ';' ∉ part) :
    Text.splitOn (.char ';') part = [part] := by
  induction part with
  | nil => rfl
  | cons c part ih =>
    obtain ⟨hc, hpart⟩ : c ≠ .char ';' ∧ .char ';' ∉ part := by
      simpa [eq_comm] using h
    simp [Text.splitOn, hc, ih hpart]

theorem malformed_of_colon {name value : Text} (hname : .char ':' ∉ name) :
    malformed (name ++ .char ':' :: value) = (Text.isBlank name || Text.isBlank value) := by
  have hspan : ∀ x ∈ name, (x != .char ':') = true := by
    intro x hx
    simp only [bne_iff_ne, ne_eq]
    rintro rfl
    exact hname hx
  rw [malformed, Text.dropWhile_span hspan (by decide), Text.takeWhile_span hspan (by decide)]

theorem malformed_of_no_colon {part : Text} (h : .char ':' ∉ part) : malformed part = true := by
  have hspan : ∀ x ∈ part, (x != .char ':') = true := by
    intro x hx
    simp only [bne_iff_ne, ne_eq]
    rintro rfl
    exact h hx
  rw [malformed, List.dropWhile_eq_nil_iff.mpr hspan]

/-- A text has no colon, or a first one. -/
theorem exists_colon (s : Text) :
    .char ':' ∉ s ∨ ∃ name value, s = name ++ .char ':' :: value ∧ .char ':' ∉ name := by
  rcases Text.exists_span (· != .char ':') s with h | ⟨name, c, value, rfl, hname, hc⟩
  · exact Or.inl fun hmem => absurd (h _ hmem) (by decide)
  · obtain rfl : c = .char ':' := by simpa using hc
    exact Or.inr ⟨name, value, rfl, fun hmem => absurd (hname _ hmem) (by decide)⟩

/-- Blanks at the ends of a part do not decide whether it is malformed. -/
theorem malformed_append_blanks {before behind : Text} (hbefore : Text.isBlank before = true)
    (hbehind : Text.isBlank behind = true) (part : Text) :
    malformed (before ++ part ++ behind) = malformed part := by
  have hcolon : ∀ {gap : Text}, Text.isBlank gap = true → .char ':' ∉ gap := by
    intro gap hgap hmem
    exact absurd (Text.isBlank_iff.mp hgap _ hmem) (by decide)
  rcases exists_colon part with hpart | ⟨name, value, rfl, hname⟩
  · rw [malformed_of_no_colon hpart, malformed_of_no_colon]
    simp [hpart, hcolon hbefore, hcolon hbehind]
  · have hsplit : before ++ (name ++ CodePoint.char ':' :: value) ++ behind =
        (before ++ name) ++ .char ':' :: (value ++ behind) := by simp
    rw [hsplit, malformed_of_colon hname, malformed_of_colon (by simp [hname, hcolon hbefore])]
    simp only [Text.isBlank, List.all_append] at hbefore hbehind ⊢
    rw [hbefore, hbehind, Bool.true_and, Bool.and_true]

theorem malformed_trim (part : Text) : malformed (Text.trim part) = malformed part := by
  obtain ⟨before, behind, hbefore, hbehind, hpart⟩ := Text.exists_trim part
  have := malformed_append_blanks hbefore hbehind (Text.trim part)
  rw [← hpart] at this
  exact this.symm

/-- Whether a part of a block is sound: it is blank, or a declaration in the right form. -/
def partOk (part : Text) : Bool := Text.isBlank part || !malformed part

/-- Whether all parts of the interior of a block are sound. -/
def bodyOk (body : Text) : Bool := (declarations body).all (!malformed ·)

theorem bodyOk_append (a b : Text) : bodyOk (a ++ .char ';' :: b) = (bodyOk a && bodyOk b) := by
  simp [bodyOk, declarations, splitOn_append]

theorem bodyOk_of_not_mem {part : Text} (h : .char ';' ∉ part) : bodyOk part = partOk part := by
  rw [bodyOk, declarations, splitOn_of_not_mem h, partOk]
  cases hpart : Text.isBlank part with
  | true => simp [Text.trim_eq_nil_iff.mpr hpart]
  | false =>
    have hne : Text.trim part ≠ [] := by
      rw [ne_eq, Text.trim_eq_nil_iff, hpart]
      exact Bool.false_ne_true
    simp [hne, malformed_trim]

theorem wellFormed_eq_all (css : Text) : wellFormed css = (blocks css).all bodyOk := rfl

/-! ## The reader -/

/-- Where a reader of blocks stands. -/
inductive Reading where
  /-- Outside all blocks that can still be innermost ones. -/
  | outside
  /-- In such a block, with whether its ended parts are sound, and the part that has not ended. -/
  | block (sound : Bool) (part : Text)

/-- Whether all innermost blocks that end in the rest of a text are well-formed. -/
def wellFormedFrom : Reading → Text → Bool
  | _, [] => true
  | _, .char '{' :: rest => wellFormedFrom (.block true []) rest
  | .outside, _ :: rest => wellFormedFrom .outside rest
  | .block sound part, .char '}' :: rest =>
    sound && partOk part && wellFormedFrom .outside rest
  | .block sound part, .char ';' :: rest => wellFormedFrom (.block (sound && partOk part) []) rest
  | .block sound part, c :: rest => wellFormedFrom (.block sound (part ++ [c])) rest

theorem wellFormedFrom_outside_cons {c : CodePoint} (hc : c ≠ .char '{') (rest : Text) :
    wellFormedFrom .outside (c :: rest) = wellFormedFrom .outside rest := by
  rw [wellFormedFrom]
  rintro rfl
  exact hc rfl

theorem wellFormedFrom_block_cons {c : CodePoint} (hc : isDelimiter c = false) (sound : Bool)
    (part rest : Text) :
    wellFormedFrom (.block sound part) (c :: rest) =
      wellFormedFrom (.block sound (part ++ [c])) rest := by
  have hne : ∀ d : Char, isDelimiter (.char d) = true → c ≠ .char d := by
    rintro d hd rfl
    rw [hc] at hd
    cases hd
  rw [wellFormedFrom]
  · exact hne '{' (by decide)
  · exact hne '}' (by decide)
  · exact hne ';' (by decide)

theorem wellFormedFrom_outside_run {run : Text} (hrun : IsRun run) (rest : Text) :
    wellFormedFrom .outside (run ++ rest) = wellFormedFrom .outside rest := by
  induction run with
  | nil => rfl
  | cons c run ih =>
    obtain ⟨hc, hrun⟩ := isRun_cons.mp hrun
    rw [List.cons_append, wellFormedFrom_outside_cons (ne_opening_of_not_isDelimiter hc), ih hrun]

theorem wellFormedFrom_block_run {run : Text} (hrun : IsRun run) (sound : Bool)
    (part rest : Text) :
    wellFormedFrom (.block sound part) (run ++ rest) =
      wellFormedFrom (.block sound (part ++ run)) rest := by
  induction run generalizing part with
  | nil => rw [List.nil_append, List.append_nil]
  | cons c run ih =>
    obtain ⟨hc, hrun⟩ := isRun_cons.mp hrun
    rw [List.cons_append, wellFormedFrom_block_cons hc, ih hrun, List.append_assoc,
      List.singleton_append]

/-- The reader agrees with the check, both outside blocks and when it has read some `body` of a
block, provided that it remembers what matters of that body. -/
theorem wellFormedFrom_spec (css : Text) :
    wellFormedFrom .outside css = wellFormed css ∧
    ∀ body sound part, Braceless body → .char ';' ∉ part →
      (∀ tail, bodyOk (body ++ tail) = (sound && bodyOk (part ++ tail))) →
      wellFormedFrom (.block sound part) css = wellFormed (.char '{' :: (body ++ css)) := by
  induction css with
  | nil =>
    refine ⟨rfl, fun body sound part hbody _ _ => ?_⟩
    rw [wellFormed_eq_all, blocks_reopened hbody (by simp)]
    rfl
  | cons c rest ih =>
    obtain ⟨ihout, ihin⟩ := ih
    have hopened : wellFormedFrom (.block true []) rest = wellFormed (.char '{' :: rest) :=
      ihin [] true [] (by simp [Braceless]) (by simp) (by simp)
    constructor
    · by_cases hc : c = .char '{'
      · subst hc
        exact hopened
      · rw [wellFormedFrom_outside_cons hc, ihout, wellFormed_eq_all, wellFormed_eq_all,
          blocks_cons_of_ne hc]
    · intro body sound part hbody hpart hbodyOk
      by_cases hopen : c = .char '{'
      · subst hopen
        rw [wellFormed_eq_all, blocks_reopened hbody (by simp), ← wellFormed_eq_all]
        exact hopened
      · by_cases hclose : c = .char '}'
        · subst hclose
          have hok := hbodyOk []
          rw [List.append_nil, List.append_nil, bodyOk_of_not_mem hpart] at hok
          rw [wellFormed_eq_all, blocks_closed hbody, List.all_cons, hok, wellFormedFrom, ihout]
          rfl
        · have hbody' : Braceless (body ++ [c]) :=
            braceless_append.mpr ⟨hbody, by simp [Braceless, isBrace, hopen, hclose]⟩
          have hsplit : body ++ c :: rest = (body ++ [c]) ++ rest := by simp
          by_cases hsemi : c = .char ';'
          · subst hsemi
            rw [hsplit]
            refine ihin (body ++ [.char ';']) (sound && partOk part) [] hbody' (by simp) ?_
            intro tail
            have := hbodyOk (.char ';' :: tail)
            rw [bodyOk_append, bodyOk_append, bodyOk_of_not_mem hpart, ← Bool.and_assoc] at this
            rw [List.append_assoc, List.singleton_append, bodyOk_append, List.nil_append]
            exact this
          · have hdelim : isDelimiter c = false := by
              simp [isDelimiter, isBrace, hopen, hclose, hsemi]
            rw [wellFormedFrom_block_cons hdelim, hsplit]
            refine ihin (body ++ [c]) sound (part ++ [c]) hbody' ?_ ?_
            · simp [hpart, eq_comm, hsemi]
            · intro tail
              rw [List.append_assoc, List.append_assoc]
              exact hbodyOk ([c] ++ tail)

theorem wellFormed_eq_wellFormedFrom (css : Text) :
    wellFormed css = wellFormedFrom .outside css :=
  (wellFormedFrom_spec css).1.symm

end TextTidy.Css
