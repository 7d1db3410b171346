import TextTidy.Proofs.Css.Head
import TextTidy.Proofs.Css.Sequence

/-!
# Blank values

A value is blank if the head of its run is followed by two blanks or more and another property: the
first blank counts as the value, and the others end it. As long as texts that are spaced alike have
their blank values in the same runs, the semicolon pass makes no difference between them.
-/

namespace TextTidy.Css

/-! ## The blank values of a text -/

/-- Whether the first run of a text has a blank value behind its head. -/
def blankHead (s : Text) : Bool := (headValue? s).any blankValue

/-- For each run of a text that has a delimiter before it, whether it has a blank value. -/
def blankValuesBehind : Text → List Bool
  | [] => []
  | d :: rest =>
    if isDelimiter d then blankHead rest :: blankValuesBehind rest else blankValuesBehind rest

/-- For each run of a text, whether it has a blank value. -/
def blankValues (s : Text) : List Bool := blankHead s :: blankValuesBehind s

theorem headValue?_append_delimiter {d : CodePoint} (hd : isDelimiter d = true) (s rest : Text) :
    headValue? (s ++ d :: rest) = (headValue? s).map (· ++ d :: rest) := by
  induction s with
  | nil =>
    rw [List.nil_append, headValue?_delimiter hd]
    rfl
  | cons c s ih =>
    rw [List.cons_append]
    rcases headValue?_cases c s with ⟨hc, hnone⟩ | ⟨gap, value, rfl, hname, hgap, hsome⟩ |
      ⟨hc, hname, hskip⟩
    · rw [headValue?_delimiter hc, hnone]
      rfl
    · rw [hsome, List.append_assoc, List.cons_append, headValue?_at_name hname hgap]
      rfl
    · rw [hskip, headValue?_skip hc, ih]
      rwa [colonFollows_append_delimiter hd]

theorem blankHead_append_delimiter {d : CodePoint} (hd : isDelimiter d = true) (s rest : Text) :
    blankHead (s ++ d :: rest) = blankHead s := by
  rw [blankHead, headValue?_append_delimiter hd, blankHead]
  cases headValue? s with
  | none => rfl
  | some value => exact blankValue_append_delimiter hd value rest

/-- The runs before a delimiter and behind it. -/
theorem blankValues_append_delimiter {d : CodePoint} (hd : isDelimiter d = true) (s rest : Text) :
    blankValues (s ++ d :: rest) = blankValues s ++ blankValues rest := by
  have hbehind : blankValuesBehind (s ++ d :: rest) = blankValuesBehind s ++ blankValues rest := by
    induction s with
    | nil =>
      show (if isDelimiter d then _ else _) = _
      rw [if_pos hd]
      rfl
    | cons c s ih =>
      rw [List.cons_append, blankValuesBehind, blankValuesBehind, ih,
        blankHead_append_delimiter hd]
      split <;> rfl
  rw [blankValues, hbehind, blankHead_append_delimiter hd]
  rfl

theorem blankValues_run {run : Text} (hrun : IsRun run) : blankValues run = [blankHead run] := by
  have hbehind : blankValuesBehind run = [] := by
    induction run with
    | nil => rfl
    | cons c run ih =>
      obtain ⟨hc, hrun⟩ := isRun_cons.mp hrun
      rw [blankValuesBehind, hc, if_neg Bool.false_ne_true, ih hrun]
  rw [blankValues, hbehind]

theorem blankValues_runEnd {run tail : Text} (hrun : IsRun run) (htail : RunEnd tail) :
    blankValues (run ++ tail) = blankHead (run ++ tail) :: blankValuesBehind tail := by
  cases htail with
  | text =>
    rw [List.append_nil, blankValues_run hrun]
    rfl
  | delimiter hd =>
    rw [blankValues_append_delimiter hd, blankValues_run hrun, blankHead_append_delimiter hd,
      blankValuesBehind, if_pos hd]
    rfl

theorem blankHead_runEnd {tail : Text} (htail : RunEnd tail) (s : Text) :
    blankHead (s ++ tail) = blankHead s := by
  cases htail with
  | text => rw [List.append_nil]
  | delimiter hd => exact blankHead_append_delimiter hd s []

theorem blankHead_of_head {front : Text} (hhead : headValue? front = some []) (value : Text) :
    blankHead (front ++ value) = blankValue value := by
  rw [blankHead, headValue?_append hhead]
  rfl

theorem exists_of_blankHead {s : Text} (h : blankHead s = true) :
    ∃ front value, s = front ++ value ∧ headValue? front = some [] ∧ blankValue value = true := by
  obtain ⟨value, hvalue, hblank⟩ := (Option.any_eq_true _ _).mp h
  obtain ⟨front, rfl, hfront⟩ := exists_head hvalue
  exact ⟨front, value, rfl, hfront, hblank⟩

/-- A run with a blank value has it however the text goes on. -/
theorem blankHead_append {s : Text} (h : blankHead s = true) (rest : Text) :
    blankHead (s ++ rest) = true := by
  obtain ⟨front, value, rfl, hfront, hblank⟩ := exists_of_blankHead h
  rw [List.append_assoc, blankHead_of_head hfront, blankValue_append hblank]

/-- A blank value lacks its semicolon. -/
theorem lacksSemicolon_of_blankHead {s : Text} (h : blankHead s = true) (rest : Text) :
    lacksSemicolon (s ++ rest) = true := by
  obtain ⟨front, value, rfl, hfront, hblank⟩ := exists_of_blankHead h
  rw [List.append_assoc]
  exact lacksSemicolon_of_head hfront (blankValue_isSome hblank rest)

/-! ## The semicolon pass -/

section RunEnd

variable {run run' tail : Text}

/-- Runs that are spaced alike are ended alike if both have a blank value or neither has one. -/
theorem insertSemicolons_runEnd_spaced (hrun : IsRun run) (hrun' : IsRun run')
    (htail : RunEnd tail) (h : Spaced (run ++ tail) (run' ++ tail))
    (hblank : blankHead (run ++ tail) = blankHead (run' ++ tail)) :
    Spaced (insertSemicolons (run ++ tail)) (insertSemicolons (run' ++ tail)) := by
  rcases headValue?_spaced h with ⟨hnone, hnone'⟩ |
    ⟨front, front', value, value', hsplit, hsplit', hhead, hhead', hfront, hvalue⟩
  · rw [insertSemicolons_headless hrun htail (headless_of_append hnone),
      insertSemicolons_headless hrun' htail (headless_of_append hnone')]
    exact h
  · rw [hsplit, hsplit', blankHead_of_head hhead, blankHead_of_head hhead'] at hblank
    rw [insertSemicolons_head hrun htail hhead hsplit,
      insertSemicolons_head hrun' htail hhead' hsplit']
    exact hfront.append (endValue_spaced hvalue hblank)

theorem Spaced.isRun_of_concat {d : CodePoint} (h : Spaced (run ++ [d]) (run' ++ [d]))
    (hrun : IsRun run) : IsRun run' := by
  have hfilter := h.filter_eq
  rw [List.filter_append, List.filter_append] at hfilter
  have hsame := List.append_cancel_right hfilter
  intro c hc
  cases hblank : c.isBlank with
  | true => exact not_isDelimiter_of_isBlank hblank
  | false =>
    have hmem : c ∈ run.filter (!·.isBlank) := by
      rw [hsame]
      exact List.mem_filter.mpr ⟨hc, by simp [hblank]⟩
    exact hrun c (List.mem_filter.mp hmem).1

end RunEnd

/-- Induction along two texts that are spaced alike, from run to run. -/
theorem spaced_run_induction {motive : Text → Text → Prop}
    (last : ∀ run run', IsRun run → IsRun run' → Spaced run run' → motive run run')
    (more : ∀ run run' d rest rest', IsRun run → IsRun run' → isDelimiter d = true →
      Spaced (run ++ [d]) (run' ++ [d]) → Spaced rest rest' → motive rest rest' →
      motive (run ++ d :: rest) (run' ++ d :: rest'))
    {s o : Text} (h : Spaced s o) : motive s o := by
  induction s using run_induction generalizing o with
  | last run hrun => exact last run o hrun (h.isRun hrun) h
  | more run d rest hrun hd ih =>
    obtain ⟨run', rest', rfl, hfront, hrest⟩ := h.split (not_isBlank_of_isDelimiter hd)
    exact more run run' d rest rest' hrun (hfront.isRun_of_concat hrun) hd hfront hrest (ih hrest)

/-- What the blank values of two texts say of their first runs and of the others. -/
theorem blankValues_eq_iff {run run' rest rest' : Text} {d : CodePoint} (hrun : IsRun run)
    (hrun' : IsRun run') (hd : isDelimiter d = true) :
    blankValues (run ++ d :: rest) = blankValues (run' ++ d :: rest') ↔
      blankHead (run ++ [d]) = blankHead (run' ++ [d]) ∧ blankValues rest = blankValues rest' := by
  rw [blankValues_append_delimiter hd, blankValues_append_delimiter hd, blankValues_run hrun,
    blankValues_run hrun', blankHead_append_delimiter hd, blankHead_append_delimiter hd]
  simp

/-- Texts that are spaced alike and have their blank values in the same runs are ended alike. -/
theorem insertSemicolons_spaced {s o : Text} (h : Spaced s o)
    (hblank : blankValues s = blankValues o) :
    Spaced (insertSemicolons s) (insertSemicolons o) := by
  revert hblank
  refine spaced_run_induction (motive := fun s o => blankValues s = blankValues o →
    Spaced (insertSemicolons s) (insertSemicolons o)) ?_ ?_ h
  · intro run run' hrun hrun' hspaced hblank
    rw [blankValues_run hrun, blankValues_run hrun'] at hblank
    have hlast := insertSemicolons_runEnd_spaced hrun hrun' RunEnd.text
    rw [List.append_nil, List.append_nil] at hlast
    exact hlast hspaced (List.cons.inj hblank).1
  · intro run run' d rest rest' hrun hrun' hd hfront hrest ih hblank
    obtain ⟨hfirst, hbehind⟩ := (blankValues_eq_iff hrun hrun' hd).mp hblank
    rw [insertSemicolons_append hd run rest, insertSemicolons_append hd run' rest']
    exact (insertSemicolons_runEnd_spaced hrun hrun' (.delimiter hd) hfront hfirst).append
      (ih hbehind)

/-! ## Lacking semicolons -/

theorem count_insertSemicolons (s : Text) :
    s.count (.char ';') ≤ (insertSemicolons s).count (.char ';') := by
  refine insertSemicolons_relates
    (R := fun s o => s.count (.char ';') ≤ o.count (.char ';')) (Nat.le_refl _) ?_ ?_ s
  · intro c s o h
    rw [List.count_cons, List.count_cons]
    omega
  · intro decl more o _ _ h
    rw [List.count_append, List.count_append, List.count_cons_self]
    omega

/-- A semicolon is lacking exactly if the pass adds one. -/
theorem lacksSemicolon_iff_count {s : Text} :
    lacksSemicolon s = true ↔
      s.count (.char ';') < (insertSemicolons s).count (.char ';') := by
  constructor
  · intro h
    obtain ⟨pre, decl, more, rfl, -, -, -, hfirst⟩ := exists_first_unterminated h
    have := count_insertSemicolons more
    rw [hfirst]
    simp only [List.count_append, List.count_cons_self]
    omega
  · intro h
    rw [← Bool.not_eq_false]
    intro hnot
    rw [insertSemicolons_eq_self_iff.mpr hnot] at h
    exact Nat.lt_irrefl _ h

theorem Spaced.count_eq {s o : Text} (h : Spaced s o) :
    s.count (.char ';') = o.count (.char ';') := by
  have hfilter : ∀ s : Text,
      (s.filter (!·.isBlank)).count (.char ';') = s.count (.char ';') := by
    intro s
    exact List.count_filter (by decide)
  rw [← hfilter s, ← hfilter o, h.filter_eq]

/-- Texts that are spaced alike and have their blank values in the same runs lack the same
semicolons. -/
theorem lacksSemicolon_spaced {s o : Text} (h : Spaced s o)
    (hblank : blankValues s = blankValues o) : lacksSemicolon s = lacksSemicolon o := by
  rw [Bool.eq_iff_iff, lacksSemicolon_iff_count, lacksSemicolon_iff_count, h.count_eq,
    (insertSemicolons_spaced h hblank).count_eq]

/-! ## The blank values that are left -/

section RunEnd

variable {run run' tail : Text}

/-- Behind the semicolon that the pass adds to a run there is no blank value. -/
theorem blankValues_insertSemicolons_runEnd (hrun : IsRun run) (htail : RunEnd tail) :
    (blankHead (insertSemicolons (run ++ tail)) = true → blankHead (run ++ tail) = true) ∧
    blankValues (insertSemicolons (run ++ tail)) =
      blankHead (insertSemicolons (run ++ tail)) ::
        if lacksSemicolon (run ++ tail) then false :: blankValuesBehind tail
        else blankValuesBehind tail := by
  have hsemi : isDelimiter (.char ';') = true := by decide
  rcases insertSemicolons_runEnd hrun htail with ⟨hlacks, hsame⟩ |
    ⟨pre, decl, more, rfl, hdecl, hends, hnone, hcut⟩
  · rw [hsame, blankValues_runEnd hrun htail, hlacks]
    exact ⟨id, rfl⟩
  · obtain ⟨hfront, hmore⟩ := isRun_append.mp hrun
    have hlacks : lacksSemicolon (pre ++ decl ++ more ++ tail) = true :=
      lacksSemicolon_iff.mpr ⟨pre, decl, more ++ tail, by simp, hdecl, hends⟩
    have hbehind : blankHead (more ++ tail) = false := by
      rw [blankHead_runEnd htail, ← Bool.not_eq_true]
      intro hblank
      -- the value that the pass has ended would go on
      obtain ⟨front, value, rfl, -, hvalue⟩ := exists_of_blankHead hblank
      have hopen := blankValue_isSome hvalue tail
      rw [List.append_assoc] at hnone
      rw [openValue?_of_append (isRun_append.mp hmore).1 hnone] at hopen
      cases hopen
    rw [hcut, hlacks, if_pos rfl, blankHead_append_delimiter hsemi,
      blankValues_append_delimiter hsemi, blankValues_run hfront, blankValues_runEnd hmore htail,
      hbehind]
    refine ⟨fun h => ?_, rfl⟩
    rw [List.append_assoc (pre ++ decl)]
    exact blankHead_append h _

/-- Runs that are spaced alike keep their blank values or lose them alike. -/
theorem blankHead_insertSemicolons_spaced (hrun : IsRun run) (hrun' : IsRun run')
    (htail : RunEnd tail) (h : Spaced (run ++ tail) (run' ++ tail))
    (hblank : blankHead (run ++ tail) = blankHead (run' ++ tail)) :
    blankHead (insertSemicolons (run ++ tail)) = blankHead (insertSemicolons (run' ++ tail)) := by
  rcases headValue?_spaced h with ⟨hnone, hnone'⟩ |
    ⟨front, front', value, value', hsplit, hsplit', hhead, hhead', -, hvalue⟩
  · rw [insertSemicolons_headless hrun htail (headless_of_append hnone),
      insertSemicolons_headless hrun' htail (headless_of_append hnone'), hblank]
  · cases hs : blankHead (run ++ tail) with
    | false =>
      have hnot := mt (blankValues_insertSemicolons_runEnd hrun htail).1 (by simp [hs])
      have hnot' := mt (blankValues_insertSemicolons_runEnd hrun' htail).1 (by simp [← hblank, hs])
      rw [Bool.not_eq_true] at hnot hnot'
      rw [hnot, hnot']
    | true =>
      have ho := hblank.symm.trans hs
      rw [hsplit, blankHead_of_head hhead] at hs
      rw [hsplit', blankHead_of_head hhead'] at ho
      rw [insertSemicolons_head hrun htail hhead hsplit,
        insertSemicolons_head hrun' htail hhead' hsplit', blankHead_of_head hhead,
        blankHead_of_head hhead']
      obtain ⟨gap, gap', c, s, o, rfl, rfl, hgap, hgap', hc, hrest⟩ :=
        hvalue.exists_of_blankValue hs
      have hopen := begunOpen_spaced hrest
      rcases endValue_of_blankValue hgap hc hs with ⟨hbegun, hend, hkept⟩ |
        ⟨hbegun, before, b, -, hend, hcut⟩
      · rcases endValue_of_blankValue hgap' hc ho with ⟨-, hend', hkept'⟩ | ⟨hbegun', -⟩
        · rw [hend, hend', hkept, hkept']
        · rw [hbegun, hbegun'] at hopen
          cases hopen
      · rcases endValue_of_blankValue hgap' hc ho with ⟨hbegun', -⟩ |
          ⟨-, before', b', -, hend', hcut'⟩
        · rw [hbegun, hbegun'] at hopen
          cases hopen
        · rw [hend, hend', hcut, hcut']

end RunEnd

/-- Texts that are spaced alike and have their blank values in the same runs do so behind the
pass. -/
theorem blankValues_insertSemicolons_spaced {s o : Text} (h : Spaced s o)
    (hblank : blankValues s = blankValues o) :
    blankValues (insertSemicolons s) = blankValues (insertSemicolons o) := by
  have hrunEnd : ∀ {run run' tail : Text}, IsRun run → IsRun run' → RunEnd tail →
      Spaced (run ++ tail) (run' ++ tail) → blankHead (run ++ tail) = blankHead (run' ++ tail) →
      blankValues (insertSemicolons (run ++ tail)) =
        blankValues (insertSemicolons (run' ++ tail)) := by
    intro run run' tail hrun hrun' htail hspaced hsame
    have hvalues : blankValues (run ++ tail) = blankValues (run' ++ tail) := by
      rw [blankValues_runEnd hrun htail, blankValues_runEnd hrun' htail, hsame]
    rw [(blankValues_insertSemicolons_runEnd hrun htail).2,
      (blankValues_insertSemicolons_runEnd hrun' htail).2,
      blankHead_insertSemicolons_spaced hrun hrun' htail hspaced hsame,
      lacksSemicolon_spaced hspaced hvalues]
  revert hblank
  refine spaced_run_induction (motive := fun s o => blankValues s = blankValues o →
    blankValues (insertSemicolons s) = blankValues (insertSemicolons o)) ?_ ?_ h
  · intro run run' hrun hrun' hspaced hsame
    rw [blankValues_run hrun, blankValues_run hrun'] at hsame
    have hlast := hrunEnd hrun hrun' RunEnd.text
    rw [List.append_nil, List.append_nil] at hlast
    exact hlast hspaced (List.cons.inj hsame).1
  · intro run run' d rest rest' hrun hrun' hd hfront hrest ih hsame
    obtain ⟨hfirst, hbehind⟩ := (blankValues_eq_iff hrun hrun' hd).mp hsame
    have hvalues := hrunEnd hrun hrun' (.delimiter hd) hfront hfirst
    obtain ⟨t, ht⟩ := exists_insertSemicolons_concat hd run
    obtain ⟨t', ht'⟩ := exists_insertSemicolons_concat hd run'
    rw [ht, ht', blankValues_append_delimiter hd, blankValues_append_delimiter hd] at hvalues
    rw [insertSemicolons_append hd run rest, insertSemicolons_append hd run' rest', ht, ht',
      List.append_assoc, List.append_assoc, List.singleton_append, List.singleton_append,
      blankValues_append_delimiter hd, blankValues_append_delimiter hd,
      List.append_cancel_right hvalues, ih hbehind]

end TextTidy.Css
