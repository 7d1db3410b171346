import TextTidy.Proofs.Css.QuotedCut
import TextTidy.Proofs.Css.Verdict

/-!
# String literals that survive

No pass knows of quotes, so a string literal survives only if every pass finds nothing to do in it:
if it is compact already, has no misspelling before a colon where the stylesheet is corrected, and
no declaration runs on within it.
-/

namespace TextTidy.Css

/-! ## What compaction and the spelling pass keep -/

section

variable {f : CodePoint → Bool}

theorem filter_squeezeFrom_of_blank (hblank : ∀ c, c.isBlank = true → f c = false)
    (hsemi : f (.char ';') = false) (after gap : Bool) (s : Text) :
    (squeezeFrom after gap s).filter f = s.filter f := by
  induction s generalizing after gap with
  | nil => rfl
  | cons c s ih =>
    have hcons : ∀ after, (c :: squeezeFrom after false s).filter f = (c :: s).filter f := by
      intro after
      rw [List.filter_cons, List.filter_cons, ih]
    rcases squeezeFrom_cases after gap c s with ⟨hc, h⟩ | ⟨rfl, -, h⟩ | ⟨-, -, h⟩ |
      ⟨-, -, -, -, -, h⟩
    · rw [h, ih, List.filter_cons_of_neg (by simp [hblank c hc])]
    · rw [h, ih, List.filter_cons_of_neg (by simp [hsemi])]
    · rw [h, hcons]
    · rw [h, List.filter_cons_of_neg (by simp [hblank (.char ' ') (by decide)]), hcons]

/-- Compaction changes nothing but blanks and semicolons. -/
theorem filter_packed (hblank : ∀ c, c.isBlank = true → f c = false)
    (hsemi : f (.char ';') = false) (s : Text) : (packed s).filter f = s.filter f := by
  obtain ⟨⟨tail, htail, h⟩, -⟩ := packed_spec s
  have hnil : tail.filter f = [] := by
    rw [List.filter_eq_nil_iff]
    intro c hc
    rw [hblank c (Text.isBlank_iff.mp htail c hc)]
    exact Bool.false_ne_true
  rw [h, List.filter_append, filter_squeezeFrom_of_blank hblank hsemi, hnil, List.append_nil]

end

/-- A text that spelling and compaction keep, up to semicolons, has no misspelling in it. -/
theorem respelled_eq_nil_of_packed {s : Text}
    (h : withoutSemicolons (packed (correctSpelling s)) = withoutSemicolons s) :
    respelled s = [] := by
  let f : CodePoint → Bool := fun c => !c.isBlank && c != .char ';'
  have hwithout : ∀ t : Text, (withoutSemicolons t).filter f = t.filter f := by
    intro t
    rw [withoutSemicolons, List.filter_filter]
    refine List.filter_congr fun c _ => ?_
    cases hc : c != .char ';' <;> simp [f, hc]
  refine respelled_eq_nil_of_filter (f := f) ?_ ?_
  · intro c hc
    have hne : c ≠ .char ';' := by
      rintro rfl
      exact absurd hc (by decide)
    simp [f, not_isBlank_of_isNameChar hc, hne]
  · calc (correctSpelling s).filter f
        = (packed (correctSpelling s)).filter f :=
          (filter_packed (fun c hc => by simp [f, hc]) (by decide) _).symm
      _ = s.filter f := by rw [← hwithout, h, hwithout]

theorem respelled_inQuotes (body : Text) : respelled (inQuotes body) = respelled body := by
  have hfront := respelled_append_stop (d := .char '"') (by decide) [] (body ++ [.char '"'])
  have hback := respelled_append_stop (d := .char '"') (by decide) body []
  have hnil : respelled [] = [] := rfl
  rw [List.nil_append, hback, hnil, List.nil_append, List.append_nil] at hfront
  exact hfront

/-! ## The quoted texts of the output -/

theorem markless_replicate (n : Nat) : Markless (List.replicate n (.char '}')) := by
  intro c hc
  rw [List.eq_of_mem_replicate hc]
  decide

/-- The quoted texts of a corrected and compact text are those behind the semicolon pass, each
respelt and made compact on its own. -/
theorem quotedTexts_compact_corrected {s : Text} (hextra : (balance s).extra = false) :
    quotedTexts (compact (corrected s)) =
      (quotedTexts (insertSemicolons s)).map fun body => packed (correctSpelling body) := by
  rw [quotedTexts_compact, corrected_eq_mended hextra, correctSpelling_keepsQuotes.quotedTexts_eq,
    mended, quotedTexts, quotedFrom_append_markless (markless_replicate _), List.map_map, quotedTexts,
    Function.comp_def]

/-- Where no declaration runs on inside quotes, the semicolon pass does not matter for them. -/
theorem quotedTexts_compact_corrected_of_not_runsOnInQuotes {s : Text}
    (hextra : (balance s).extra = false) (h : ¬RunsOnInQuotes s) :
    quotedTexts (compact (corrected s)) =
      (quotedTexts s).map fun body => packed (correctSpelling body) := by
  obtain ⟨t, hended, hsame⟩ := exists_idleEnded s
  have hquoted : quotedTexts t = quotedTexts s := hsame none h
  have hcompact : compact (corrected s) =
      compact (correctSpelling (t ++ List.replicate (balance s).missing (.char '}'))) := by
    rw [corrected_eq_mended hextra, mended, (hended.append _).correctSpelling.compact_eq]
  rw [hcompact, quotedTexts_compact, correctSpelling_keepsQuotes.quotedTexts_eq, ← hquoted,
    quotedTexts, quotedFrom_append_markless (markless_replicate _), List.map_map, quotedTexts,
    Function.comp_def]

theorem RunsOnInQuotes.runsOn {s : Text} (h : RunsOnInQuotes s) : RunsOn s := by
  obtain ⟨pre, decl, more, hs, hdecl, hnext, -, -⟩ := h
  exact ⟨pre, decl, more, hs, hdecl, hnext⟩

theorem not_runsOn_insertSemicolons {s : Text} (h : (validate (corrected s)).isValid = true) :
    ¬RunsOn (insertSemicolons s) := by
  obtain ⟨-, hlacks, -⟩ := isValid_corrected_iff.mp h
  rintro ⟨pre, decl, more, hs, hdecl, hnext⟩
  refine not_runsOn_of_not_lacksSemicolon hlacks
    ⟨pre, decl, more ++ List.replicate (balance s).missing (.char '}'), ?_, hdecl,
      nextProperty_append hnext _⟩
  rw [mended, hs, List.append_assoc]

/-- Where a declaration runs on inside quotes, not all quoted texts survive the correction. -/
theorem quotedTexts_corrected_ne_of_runsOnInQuotes {s : Text}
    (hvalid : (validate (corrected s)).isValid = true) (h : RunsOnInQuotes s) :
    quotedTexts (compact (corrected s)) ≠ quotedTexts s := by
  intro hsame
  obtain ⟨hextra, -, -⟩ := isValid_corrected_iff.mp hvalid
  obtain ⟨front, b, behind, hcut, hb, hopen, hclose⟩ :=
    exists_cut h (not_runsOn_insertSemicolons hvalid)
  have hmarkless : Markless [.char ';', b] :=
    markless_cons.mpr ⟨by decide, markless_cons.mpr ⟨not_isQuoteMark_of_isBlank hb, markless_nil⟩⟩
  obtain ⟨before, rest, hmem⟩ := exists_mem_quotedTexts (t := [.char ';', b]) hopen
    (by rwa [closesQuote_append_markless hmarkless]) hmarkless
  have hfront : front ++ ([.char ';', b] ++ behind) = insertSemicolons s := by rw [hcut]; rfl
  rw [hfront] at hmem
  -- the text with the semicolon in it is kept, up to semicolons
  have hkept : ∀ body ∈ quotedTexts (insertSemicolons s),
      withoutSemicolons (packed (correctSpelling body)) = withoutSemicolons body := by
    refine List.map_inj_left.mp ?_
    rw [quotedTexts_insertSemicolons, ← hsame, quotedTexts_compact_corrected hextra, List.map_map,
      Function.comp_def]
  have hbody := hkept _ hmem
  rw [correctSpelling_eq_self_iff.mpr (respelled_eq_nil_of_packed hbody)] at hbody
  have hmarkless' := markless_of_mem_quotedTexts hmem
  rw [List.append_assoc] at hbody hmarkless'
  exact withoutSemicolons_packed_ne hb hmarkless' hbody

/-! ## Literals of the output -/

/-- A compact text is on one line. -/
theorem newline_not_mem_compact (s : Text) : CodePoint.char '\n' ∉ compact s := by
  have h : ∀ after gap, CodePoint.char '\n' ∉ squeezeFrom after gap s := by
    induction s with
    | nil => exact fun after gap h => nomatch h
    | cons c s ih =>
      intro after gap
      have hcons : ∀ after, c.isBlank = false →
          CodePoint.char '\n' ∉ c :: squeezeFrom after false s := by
        intro after hc hmem
        rcases List.mem_cons.mp hmem with rfl | hmem
        · exact absurd hc (by decide)
        · exact ih _ _ hmem
      rcases squeezeFrom_cases after gap c s with ⟨-, h⟩ | ⟨-, -, h⟩ | ⟨hc, -, h⟩ |
        ⟨-, -, hc, -, -, h⟩
      · rw [h]
        exact ih _ _
      · rw [h]
        exact ih _ _
      · rw [h]
        exact hcons _ hc
      · rw [h, List.mem_cons, not_or]
        exact ⟨by decide, hcons _ hc⟩
  rw [compact_eq_squeezeFrom]
  exact h true false

theorem literals_compact {s : Text} (h : stripComments (compact s) = compact s) :
    literals (compact s) = (quotedTexts (compact s)).map inQuotes := by
  have happart := QuotesApart.of_not_occursIn (stripComments_eq_self_iff.mp h)
    (newline_not_mem_compact s)
  rw [happart.literals_eq, h]

/-- Texts are the same if they are the same between quotes. -/
theorem map_inQuotes_inj {bodies bodies' : List Text} :
    bodies.map inQuotes = bodies'.map inQuotes ↔ bodies = bodies' :=
  List.map_inj_right fun _ _ h => List.append_cancel_right (List.cons.inj h).2

/-- A list of texts in quotes stays the same exactly if each of the texts does. -/
theorem map_inQuotes_eq_iff {pass : Text → Text} {bodies : List Text} :
    (bodies.map pass).map inQuotes = bodies.map inQuotes ↔ ∀ body ∈ bodies, pass body = body := by
  rw [map_inQuotes_inj]
  constructor
  · intro h
    rw [← List.map_id'' (f := id) (fun _ => rfl) bodies, List.map_map] at h
    exact List.map_inj_left.mp h
  · intro h
    rw [List.map_congr_left h, List.map_id']

section

variable {raw s : Text}

/-- What has to hold of the text between quotes, said of the literal. -/
theorem forall_settled_iff (h : literals raw = (quotedTexts s).map inQuotes) :
    (∀ body ∈ quotedTexts s, packed body = body) ↔ ∀ l ∈ literals raw, settled l = true := by
  rw [h, List.forall_mem_map]
  exact forall₂_congr fun body hbody =>
    packed_eq_self_iff (markless_of_mem_quotedTexts hbody)

theorem forall_respelled_iff (h : literals raw = (quotedTexts s).map inQuotes) :
    (∀ body ∈ quotedTexts s, respelled body = []) ↔ ∀ l ∈ literals raw, respelled l = [] := by
  rw [h, List.forall_mem_map]
  exact forall₂_congr fun body _ => by rw [respelled_inQuotes]

end

/-- The string literals of a stylesheet survive exactly if each of them is compact already, none of
them is respelt in a correction, and no declaration runs on into the next one inside quotes. Quotes
have to keep apart from comments and line feeds, and the output must not have a comment. -/
theorem tidy_keeps_literals_iff (raw : Text) (h : (tidy raw).succeeded = true)
    (hquotes : QuotesApart raw)
    (hcomments : stripComments (tidy raw).output = (tidy raw).output) :
    literals (tidy raw).output = literals raw ↔
      (∀ l ∈ literals raw, settled l = true) ∧
      ((tidy raw).kind = .correctedAndMinified → ∀ l ∈ literals raw, respelled l = []) ∧
      ¬RunsOnInQuotes (stripComments raw) := by
  have hraw := hquotes.literals_eq
  rw [← forall_settled_iff hraw, ← forall_respelled_iff hraw]
  rcases tidy_cases raw with ⟨-, houtcome⟩ | ⟨-, hvalid, houtcome⟩ | ⟨-, -, hvalid, houtcome⟩ |
    ⟨-, -, -, houtcome⟩
  · rw [houtcome] at h
    cases h
  · have hruns : ¬RunsOnInQuotes (stripComments raw) := fun hruns =>
      not_runsOn_of_not_lacksSemicolon (isValid_iff.mp hvalid).2.1 hruns.runsOn
    have houtput : (tidy raw).output = compact (stripComments raw) := by rw [houtcome]
    have hkind : (tidy raw).kind ≠ .correctedAndMinified := by
      rw [houtcome]
      exact fun hkind => nomatch hkind
    rw [houtput] at hcomments ⊢
    rw [literals_compact hcomments, quotedTexts_compact, hraw, map_inQuotes_eq_iff]
    exact ⟨fun hkept => ⟨hkept, fun hcorrected => absurd hcorrected hkind, hruns⟩, And.left⟩
  · obtain ⟨hextra, -, -⟩ := isValid_corrected_iff.mp hvalid
    have houtput : (tidy raw).output = compact (corrected (stripComments raw)) := by rw [houtcome]
    have hkind : (tidy raw).kind = .correctedAndMinified := by rw [houtcome]
    rw [houtput] at hcomments ⊢
    rw [literals_compact hcomments, hraw]
    by_cases hruns : RunsOnInQuotes (stripComments raw)
    · refine iff_of_false (fun hsame => ?_) (fun hkept => hkept.2.2 hruns)
      exact quotedTexts_corrected_ne_of_runsOnInQuotes hvalid hruns
        (map_inQuotes_inj.mp hsame)
    · rw [quotedTexts_compact_corrected_of_not_runsOnInQuotes hextra hruns, map_inQuotes_eq_iff]
      constructor
      · intro hkept
        have hspelt : ∀ body ∈ quotedTexts (stripComments raw), respelled body = [] :=
          fun body hbody => respelled_eq_nil_of_packed (by rw [hkept body hbody])
        refine ⟨fun body hbody => ?_, fun _ => hspelt, hruns⟩
        have hsame := hkept body hbody
        rwa [correctSpelling_eq_self_iff.mpr (hspelt body hbody)] at hsame
      · rintro ⟨hpacked, hspelt, -⟩ body hbody
        rw [correctSpelling_eq_self_iff.mpr (hspelt hkind body hbody), hpacked body hbody]
  · rw [houtcome] at h
    cases h

/-- Two literals in a block that is left open. -/
theorem tidy_keeps_literals_open_block :
    (tidy (Text.ofString "a\x7bb:\"c d\";e:\"colr\";")).kind = .correctedAndMinified ∧
      literals (tidy (Text.ofString "a\x7bb:\"c d\";e:\"colr\";")).output =
        [Text.ofString "\"c d\"", Text.ofString "\"colr\""] := by
  have hkept := tidy_keeps_literals_iff (Text.ofString "a\x7bb:\"c d\";e:\"colr\";")
    (by decide +kernel) ⟨by decide +kernel, by decide +kernel⟩ (by decide +kernel)
  have hruns : ¬RunsOnInQuotes (stripComments (Text.ofString "a\x7bb:\"c d\";e:\"colr\";")) :=
    fun hruns => not_runsOn_of_not_lacksSemicolon (by decide +kernel) hruns.runsOn
  have hliterals : literals (Text.ofString "a\x7bb:\"c d\";e:\"colr\";") =
      [Text.ofString "\"c d\"", Text.ofString "\"colr\""] := by decide +kernel
  refine ⟨by decide +kernel, (hkept.mpr ⟨?_, fun _ => ?_, hruns⟩).trans hliterals⟩
  · rw [hliterals]
    decide
  · rw [hliterals]
    decide

/-- Literals that are lost to one pass each: to compaction, a correction of the spelling, a
semicolon, the removal of a comment inside quotes, of a line feed and of one comment that forms
another. -/
theorem literals_lost :
    (∀ css ∈ ["a\x7bb:\"c  d\";\x7d", "a\x7bb:\"colr:c\";", "a\x7bb:\"c:d e:f\";\x7d",
        "a\x7bb:\"/*c*/\";\x7d", "a\x7bb:\"\n\";\x7d", "//**/*\"b\"*/a\x7bc:d;\x7d"],
      (tidy (Text.ofString css)).succeeded = true ∧
        literals (tidy (Text.ofString css)).output ≠ literals (Text.ofString css)) ∧
      ¬∀ raw, (tidy raw).succeeded = true → literals (tidy raw).output = literals raw := by
  refine ⟨by decide +kernel, fun h => ?_⟩
  have hlost : literals (tidy (Text.ofString "a\x7bb:\"c  d\";\x7d")).output ≠
      literals (Text.ofString "a\x7bb:\"c  d\";\x7d") := by decide +kernel
  exact hlost (h _ (by decide +kernel))

end TextTidy.Css
