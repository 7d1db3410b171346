import TextTidy.Proofs.Css.Lacking
import TextTidy.Proofs.Css.Squeeze

/-!
# Quoted texts

The quoted texts of a stylesheet are read with one state, the text since the last open double quote.
No pass looks for quotes. But the spelling pass and compaction treat a double quote and a backslash
as characters like any other, which no match takes or sees beyond, so each of them works on the
quoted texts one by one.
-/

namespace TextTidy.Css

/-! ## Reading quoted texts -/

/-- The texts between one double quote and the next, when `body` is the text since a double quote
that is open. A character that `breaks` leaves no quote open. -/
def quotedFrom (breaks : CodePoint → Bool) : (body : Option Text) → Text → List Text
  | _, [] => []
  | none, c :: rest => quotedFrom breaks (if c = .char '"' then some [] else none) rest
  | some body, c :: rest =>
    if c = .char '"' then body :: quotedFrom breaks none rest
    else quotedFrom breaks (if breaks c then none else some (body ++ [c])) rest

/-- Whether a code point is a backslash. -/
def isBackslash (c : CodePoint) : Bool := c == .char '\\'

/-- The quoted texts of a stylesheet, those over several lines included. -/
def quotedTexts (s : Text) : List Text := quotedFrom isBackslash none s

/-- Whether a code point decides where a quoted text begins or ends. -/
def isQuoteMark (c : CodePoint) : Bool := c == .char '"' || isBackslash c

/-- A text without such code points. -/
def Markless (s : Text) : Prop := ∀ c ∈ s, isQuoteMark c = false

theorem isQuoteMark_iff {c : CodePoint} :
    isQuoteMark c = true ↔ c = .char '"' ∨ c = .char '\\' := by
  simp [isQuoteMark, isBackslash]

theorem markless_nil : Markless [] := by
  intro c hc
  cases hc

theorem markless_cons {c : CodePoint} {s : Text} :
    Markless (c :: s) ↔ isQuoteMark c = false ∧ Markless s := by
  simp [Markless]

/-- What a text without marks adds to a quoted text, as it is read. -/
theorem Markless.read {s : Text} (hs : Markless s) :
    ∀ c ∈ s, c ≠ .char '"' ∧ isBackslash c = false := by
  intro c hc
  simpa [isQuoteMark] using hs c hc

/-- A text has no mark, or a first one. -/
theorem exists_quoteMark (s : Text) :
    Markless s ∨ ∃ front q rest, s = front ++ q :: rest ∧ Markless front ∧ isQuoteMark q = true := by
  rcases Text.exists_span (fun c => !isQuoteMark c) s with hs | ⟨front, q, rest, rfl, hfront, hq⟩
  · exact Or.inl (by simpa [Markless] using hs)
  · exact Or.inr ⟨front, q, rest, rfl, by simpa [Markless] using hfront, by simpa using hq⟩

theorem not_isQuoteMark_of_isBlank {b : CodePoint} (hb : b.isBlank = true) :
    isQuoteMark b = false := by
  rw [← Bool.not_eq_true, isQuoteMark_iff]
  rintro (rfl | rfl)
  · exact absurd hb (by decide)
  · exact absurd hb (by decide)

theorem markless_of_isBlank {gap : Text} (h : Text.isBlank gap = true) : Markless gap :=
  fun c hc => not_isQuoteMark_of_isBlank (Text.isBlank_iff.mp h c hc)

/-- Induction along a text from mark to mark. -/
theorem quote_induction {motive : Text → Prop} (last : ∀ s, Markless s → motive s)
    (more : ∀ s q rest, Markless s → isQuoteMark q = true → motive rest →
      motive (s ++ q :: rest)) (s : Text) : motive s := by
  refine Text.span_induction (fun c => !isQuoteMark c) (fun run hrun => ?_)
    (fun run q rest hrun hq hrest => ?_) s
  · exact last run (by simpa [Markless] using hrun)
  · exact more run q rest (by simpa [Markless] using hrun) (by simpa using hq) hrest

section

variable {breaks : CodePoint → Bool} {s : Text}

theorem quotedFrom_none_append (hs : ∀ c ∈ s, c ≠ .char '"') (rest : Text) :
    quotedFrom breaks none (s ++ rest) = quotedFrom breaks none rest := by
  induction s with
  | nil => rfl
  | cons c s ih =>
    obtain ⟨hc, hs⟩ := List.forall_mem_cons.mp hs
    rw [List.cons_append, quotedFrom, if_neg hc, ih hs]

theorem quotedFrom_some_append (hs : ∀ c ∈ s, c ≠ .char '"' ∧ breaks c = false)
    (body rest : Text) :
    quotedFrom breaks (some body) (s ++ rest) = quotedFrom breaks (some (body ++ s)) rest := by
  induction s generalizing body with
  | nil => rw [List.nil_append, List.append_nil]
  | cons c s ih =>
    obtain ⟨⟨hc, hbreaks⟩, hs⟩ := List.forall_mem_cons.mp hs
    rw [List.cons_append, quotedFrom, if_neg hc, hbreaks, if_neg Bool.false_ne_true, ih hs,
      List.append_assoc]
    rfl

/-- What is open at the end is no quoted text, and so nothing behind its last mark counts. -/
theorem quotedFrom_append_markless {tail : Text} (htail : Markless tail) (body : Option Text)
    (s : Text) :
    quotedFrom isBackslash body (s ++ tail) = quotedFrom isBackslash body s := by
  induction s generalizing body with
  | nil =>
    rw [List.nil_append, ← List.append_nil tail]
    cases body with
    | none => rw [quotedFrom_none_append fun c hc => (htail.read c hc).1]
    | some body =>
      rw [quotedFrom_some_append htail.read]
      rfl
  | cons c s ih =>
    cases body with
    | none => rw [List.cons_append, quotedFrom, quotedFrom, ih]
    | some body => rw [List.cons_append, quotedFrom, quotedFrom, ih, ih]

/-- No quoted text holds a mark. -/
theorem markless_of_mem_quotedFrom {body : Option Text} (hbody : ∀ text ∈ body, Markless text)
    {text : Text} (h : text ∈ quotedFrom isBackslash body s) : Markless text := by
  induction s generalizing body with
  | nil => cases body <;> cases h
  | cons c s ih =>
    cases body with
    | none =>
      rw [quotedFrom] at h
      refine ih ?_ h
      split <;> simp [markless_nil]
    | some body =>
      rw [quotedFrom] at h
      split at h
      · rcases List.mem_cons.mp h with rfl | h
        · exact hbody text rfl
        · exact ih (by simp) h
      · rename_i hquote
        refine ih ?_ h
        cases hback : isBackslash c with
        | true => simp
        | false =>
          intro front hopen x hx
          obtain rfl : body ++ [c] = front := Option.some.inj hopen
          rcases List.mem_append.mp hx with hx | hx
          · exact hbody body rfl x hx
          · obtain rfl := List.mem_singleton.mp hx
            simp [isQuoteMark, hquote, hback]

theorem markless_of_mem_quotedTexts {text : Text} (h : text ∈ quotedTexts s) : Markless text :=
  markless_of_mem_quotedFrom (by simp) h

end

/-! ## Passes that work on the quoted texts one by one -/

/-- The pass works on the parts of a text between quote marks one by one, and leaves the marks. -/
structure KeepsQuotes (pass : Text → Text) : Prop where
  /-- No mark is written. -/
  markless : ∀ s, Markless s → Markless (pass s)
  /-- The pass does not reach beyond a mark. -/
  cut : ∀ s q rest, Markless s → isQuoteMark q = true →
    pass (s ++ q :: rest) = pass s ++ q :: pass rest

namespace KeepsQuotes

variable {pass : Text → Text}

/-- The quoted texts of the text that a pass returns are those that the pass makes of the quoted
texts. -/
theorem quotedTexts_eq (h : KeepsQuotes pass) (s : Text) :
    quotedTexts (pass s) = (quotedTexts s).map pass := by
  -- the text may begin outside quotes, or behind a double quote
  suffices hboth : quotedFrom isBackslash none (pass s) =
        (quotedFrom isBackslash none s).map pass ∧
      quotedFrom isBackslash (some []) (pass s) =
        (quotedFrom isBackslash (some []) s).map pass from hboth.1
  induction s using quote_induction with
  | last s hs =>
    have hend : ∀ {s : Text}, Markless s → ∀ body, quotedFrom isBackslash body s = [] :=
      fun hs body => quotedFrom_append_markless hs body []
    rw [hend hs, hend hs, hend (h.markless s hs), hend (h.markless s hs)]
    exact ⟨rfl, rfl⟩
  | more s q rest hs hq ih =>
    have hkept := h.markless s hs
    rw [h.cut s q rest hs hq, quotedFrom_none_append fun c hc => (hkept.read c hc).1,
      quotedFrom_none_append fun c hc => (hs.read c hc).1, quotedFrom_some_append hkept.read,
      quotedFrom_some_append hs.read, List.nil_append, List.nil_append]
    rcases isQuoteMark_iff.mp hq with rfl | rfl
    · exact ⟨ih.2, congrArg (pass s :: ·) ih.1⟩
    · exact ⟨ih.1, ih.1⟩

end KeepsQuotes

/-! ## The spelling pass -/

theorem endsWord_of_isQuoteMark {q : CodePoint} (hq : isQuoteMark q = true) :
    endsWord q = true := by
  rcases isQuoteMark_iff.mp hq with rfl | rfl <;> decide

theorem not_isQuoteMark_of_isNameChar {c : CodePoint} (hc : isNameChar c = true) :
    isQuoteMark c = false := by
  rw [← Bool.not_eq_true]
  intro hq
  rw [(endsWord_iff.mp (endsWord_of_isQuoteMark hq)).1] at hc
  cases hc

theorem correctSpelling_keepsQuotes : KeepsQuotes correctSpelling where
  markless _ hs c hc := (mem_correctSpelling hc).elim (hs c) not_isQuoteMark_of_isNameChar
  cut s _ rest _ hq := correctSpelling_append_stop (endsWord_of_isQuoteMark hq) s rest

/-! ## Compaction -/

theorem not_isBlank_of_isQuoteMark {q : CodePoint} (hq : isQuoteMark q = true) :
    q.isBlank = false := by
  rcases isQuoteMark_iff.mp hq with rfl | rfl <;> decide

theorem not_isTight_of_isQuoteMark {q : CodePoint} (hq : isQuoteMark q = true) :
    isTight q = false := by
  rcases isQuoteMark_iff.mp hq with rfl | rfl <;> decide

theorem markless_squeezeFrom {s : Text} (hs : Markless s) (after gap : Bool) :
    Markless (squeezeFrom after gap s) := by
  induction s generalizing after gap with
  | nil => exact markless_nil
  | cons c s ih =>
    obtain ⟨hc, hs⟩ := markless_cons.mp hs
    rcases squeezeFrom_cases after gap c s with ⟨-, h⟩ | ⟨-, -, h⟩ | ⟨-, -, h⟩ |
      ⟨-, -, -, -, -, h⟩
    · rw [h]
      exact ih hs after true
    · rw [h]
      exact ih hs true false
    · rw [h]
      exact markless_cons.mpr ⟨hc, ih hs _ _⟩
    · rw [h]
      exact markless_cons.mpr ⟨by decide, markless_cons.mpr ⟨hc, ih hs _ _⟩⟩

theorem markless_packed {s : Text} (hs : Markless s) : Markless (packed s) := by
  obtain ⟨⟨tail, htail, h⟩, -⟩ := packed_spec s
  intro c hc
  rw [h] at hc
  rcases List.mem_append.mp hc with hc | hc
  · exact markless_squeezeFrom hs false false c hc
  · exact markless_of_isBlank htail c hc

/-- An important mark ends before a character that is not part of it. -/
theorem startsWith_append_of_not_mem {d : CodePoint} {start : Text} (hd : d ∉ start)
    (s rest : Text) : Text.startsWith (s ++ d :: rest) start = Text.startsWith s start := by
  rw [Text.startsWith, Text.startsWith]
  induction start generalizing s with
  | nil => rw [List.isPrefixOf_nil_left, List.isPrefixOf_nil_left]
  | cons x start ih =>
    have hx : x ≠ d := fun h => hd (by simp [h])
    cases s with
    | nil =>
      rw [List.nil_append, List.isPrefixOf_cons_cons, beq_false_of_ne hx]
      rfl
    | cons y s =>
      rw [List.cons_append, List.isPrefixOf_cons_cons, List.isPrefixOf_cons_cons,
        ih (fun h => hd (List.mem_cons_of_mem x h))]

theorem closes_append_quoteMark {q : CodePoint} (hq : isQuoteMark q = true) (s rest : Text) :
    closes (s ++ q :: rest) = closes s := by
  have hend : closes (q :: rest) = false := by
    rw [closes_cons_eq, not_isBlank_of_isQuoteMark hq]
    rcases isQuoteMark_iff.mp hq with rfl | rfl <;> rfl
  have h := closes_append (s := s) (u := q :: rest) (v := []) fun _ => hend.trans rfl
  rwa [List.append_nil] at h

theorem packed_quoteMark {q : CodePoint} (hq : isQuoteMark q = true) {gap : Text}
    (hgap : Text.isBlank gap = true) (rest : Text) :
    packed (gap ++ q :: rest) = packed gap ++ q :: packed rest := by
  have hstart : Text.startsWith (q :: packed rest) importantMark = false := by
    rcases isQuoteMark_iff.mp hq with rfl | rfl <;> rfl
  rw [packed_gap hgap (not_isBlank_of_isQuoteMark hq) (not_isTight_of_isQuoteMark hq), hstart,
    packed_of_isBlank hgap]
  rfl

/-- Compaction does not reach beyond a quote mark. -/
theorem packed_append_quoteMark {q : CodePoint} (hq : isQuoteMark q = true) (s rest : Text) :
    packed (s ++ q :: rest) = packed s ++ q :: packed rest ∧
      packed (Text.trimStart s ++ q :: rest) =
        packed (Text.trimStart s) ++ q :: packed rest := by
  have hmark : q ∉ importantMark := by
    rcases isQuoteMark_iff.mp hq with rfl | rfl <;> decide
  induction s using Text.gap_induction with
  | blank gap hgap =>
    rw [Text.trimStart_of_isBlank hgap]
    exact ⟨packed_quoteMark hq hgap rest, packed_quoteMark hq Text.isBlank_nil rest⟩
  | char gap c s hgap hc ih =>
    rw [Text.trimStart_gap hgap hc]
    have htrim : Text.trimStart (s ++ q :: rest) = Text.trimStart s ++ q :: rest :=
      Text.dropWhile_append_stop (not_isBlank_of_isQuoteMark hq) s rest
    -- what holds behind a gap holds without one
    suffices h : ∀ gap, Text.isBlank gap = true →
        packed (gap ++ c :: s ++ q :: rest) = packed (gap ++ c :: s) ++ q :: packed rest from
      ⟨h gap hgap, h [] Text.isBlank_nil⟩
    intro gap hgap
    rw [List.append_assoc, List.cons_append]
    cases htight : isTight c with
    | true =>
      cases hidle : (c == .char ';' && closes s) with
      | true =>
        obtain ⟨hsemi, hcloses⟩ := Bool.and_eq_true_iff.mp hidle
        obtain rfl := eq_of_beq hsemi
        rw [packed_gap_idle hgap hcloses,
          packed_gap_idle hgap (by rw [closes_append_quoteMark hq, hcloses]), htrim, ih.2]
      | false =>
        rw [packed_gap_tight hgap htight hidle,
          packed_gap_tight hgap htight (by rw [closes_append_quoteMark hq, hidle]), htrim, ih.2,
          List.cons_append]
    | false =>
      rw [packed_gap hgap hc htight, packed_gap hgap hc htight, ih.1, ← List.cons_append,
        startsWith_append_of_not_mem hmark]
      split
      · rfl
      · rw [List.append_assoc, List.cons_append]

theorem packed_keepsQuotes : KeepsQuotes packed where
  markless _ := markless_packed
  cut s _ rest _ hq := (packed_append_quoteMark hq s rest).1

/-- The quoted texts of a compact form are those of the text, each made compact on its own. -/
theorem quotedTexts_compact (s : Text) : quotedTexts (compact s) = (quotedTexts s).map packed := by
  have htrim : compact s = Text.trim (packed s) := rfl
  obtain ⟨before, behind, hbefore, hbehind, hsplit⟩ := Text.exists_trim (packed s)
  have hquote : ∀ c ∈ before, c ≠ .char '"' := by
    rintro _ hc rfl
    exact absurd (Text.isBlank_iff.mp hbefore _ hc) (by decide)
  calc quotedTexts (compact s)
      = quotedFrom isBackslash none (before ++ Text.trim (packed s)) := by
        rw [quotedFrom_none_append hquote, htrim, quotedTexts]
    _ = quotedTexts (before ++ Text.trim (packed s) ++ behind) :=
        (quotedFrom_append_markless (markless_of_isBlank hbehind) none _).symm
    _ = (quotedTexts s).map packed := by rw [← hsplit, packed_keepsQuotes.quotedTexts_eq]

end TextTidy.Css
