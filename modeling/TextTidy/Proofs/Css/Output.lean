import TextTidy.Proofs.Css.Condensed
import TextTidy.Proofs.Utf8

/-!
# What an output holds

No step of the work on a stylesheet writes a lone surrogate, so a stylesheet that has bytes makes an
output that has bytes. And no step leaves nothing but blanks of a text with other characters, the
removal of comments apart: an output is blank exactly if the stylesheet without its comments is.
-/

namespace TextTidy.Css

open Text (Encodable)

variable {s raw : Text} {c : CodePoint}

/-! ## Characters that passes write -/

theorem isBlank_surrogate (index : Fin 2048) : (CodePoint.surrogate index).isBlank = false := by
  have hlow : 0xD800 ≤ (CodePoint.surrogate index).value := by
    simp only [CodePoint.value]
    omega
  have hhigh : (CodePoint.surrogate index).value < 0xE000 := by
    have hindex := index.isLt
    simp only [CodePoint.value]
    omega
  rw [CodePoint.isBlank, CodePoint.within, List.any_eq_false]
  intro range hrange
  simp only [blankRanges, List.mem_cons, List.not_mem_nil, or_false] at hrange
  rcases hrange with rfl | rfl | rfl | rfl | rfl | rfl | rfl | rfl | rfl | rfl <;>
    simp only [Bool.and_eq_true, decide_eq_true_eq] <;> omega

theorem exists_char_of_isBlank (h : c.isBlank = true) : ∃ a : Char, c = .char a := by
  cases c with
  | char a => exact ⟨a, rfl⟩
  | surrogate index => rw [isBlank_surrogate] at h; cases h

theorem exists_char_of_isNameChar (h : isNameChar c = true) : ∃ a : Char, c = .char a := by
  cases c with
  | char a => exact ⟨a, rfl⟩
  | surrogate index => cases h

theorem mem_stripComments (h : c ∈ stripComments s) : c ∈ s := by
  rcases Pattern.mem_replace h with h | ⟨value, h⟩
  · exact h
  · cases h

theorem Condensed.mem_or {o : Text} (h : Condensed s o) (hc : c ∈ o) :
    c ∈ s ∨ c.isBlank = true := by
  induction h with
  | nil => cases hc
  | keep x _ ih =>
    rcases List.mem_cons.mp hc with rfl | hc
    · exact Or.inl List.mem_cons_self
    · exact (ih hc).imp_left (List.mem_cons_of_mem x)
  | @blank b b' s o hb hb' _ ih =>
    rcases List.mem_cons.mp hc with rfl | hc
    · exact Or.inr hb'
    · exact (ih hc).imp_left (List.mem_cons_of_mem b)
  | @dropped b s o hb _ ih => exact (ih hc).imp_left (List.mem_cons_of_mem b)
  | @idle gap s o hgap _ ih =>
    refine (ih hc).imp_left fun hin => List.mem_cons_of_mem _ ?_
    exact List.mem_append_right gap hin

theorem mem_compact (h : c ∈ compact s) : c ∈ s ∨ c.isBlank = true := (compact_condensed s).mem_or h

theorem mem_closeBlocks (h : c ∈ closeBlocks s) : c ∈ s ∨ c = .char '}' := by
  rw [closeBlocks] at h
  split at h
  · rcases List.mem_append.mp h with h | h
    · exact Or.inl h
    · exact Or.inr (List.eq_of_mem_replicate h)
  · exact Or.inl h

/-! ## Outputs without lone surrogates -/

theorem encodable_stripComments (h : Encodable s) : Encodable (stripComments s) :=
  h.of_mem fun _ hc => Or.inl (mem_stripComments hc)

theorem encodable_compact (h : Encodable s) : Encodable (compact s) :=
  h.of_mem fun _ hc => (mem_compact hc).imp_right exists_char_of_isBlank

theorem encodable_corrected (h : Encodable s) : Encodable (corrected s) := by
  have hended : Encodable (insertSemicolons s) :=
    h.of_mem fun _ hc => (mem_insertSemicolons hc).imp_right fun hsemi => ⟨';', hsemi⟩
  have hspelt : Encodable (correctSpelling (insertSemicolons s)) :=
    hended.of_mem fun _ hc => (mem_correctSpelling hc).imp_right exists_char_of_isNameChar
  exact hspelt.of_mem fun _ hc => (mem_closeBlocks hc).imp_right fun hbrace => ⟨'}', hbrace⟩

/-- A stylesheet that has bytes makes an output that has bytes. -/
theorem encodable_output (h : Encodable raw) : Encodable (tidy raw).output := by
  have hstripped := encodable_stripComments h
  rcases tidy_cases raw with ⟨-, houtcome⟩ | ⟨-, -, houtcome⟩ | ⟨-, -, -, houtcome⟩ |
    ⟨-, -, -, houtcome⟩ <;> simp only [houtcome]
  · exact Text.encodable_nil
  · exact encodable_compact hstripped
  · exact encodable_compact (encodable_corrected hstripped)
  · exact Text.encodable_nil

/-! ## Blank outputs -/

theorem isBlank_compact_iff : Text.isBlank (compact s) = true ↔ Text.isBlank s = true := by
  refine ⟨(compact_condensed s).isBlank_of_isBlank, fun h => ?_⟩
  rw [Text.isBlank_iff] at h ⊢
  intro c hc
  exact (mem_compact hc).elim (h c) id

theorem Alike.isBlank_of_isBlank {o : Text} (h : Alike s o) (ho : Text.isBlank o = true) :
    Text.isBlank s = true := by
  induction h with
  | nil => rfl
  | keep c _ ih =>
    obtain ⟨hc, ho⟩ := Text.isBlank_cons.mp ho
    exact Text.isBlank_cons.mpr ⟨hc, ih ho⟩
  | @word wrong right s o _ hright _ hne' _ _ =>
    obtain ⟨c, hc⟩ := List.exists_mem_of_ne_nil right hne'
    have hblank := Text.isBlank_iff.mp (Text.isBlank_append.mp ho).1 c hc
    rw [not_isBlank_of_isNameChar (hright c hc)] at hblank
    cases hblank
  | blank hb _ _ ih => exact Text.isBlank_cons.mpr ⟨hb, ih (Text.isBlank_cons.mp ho).2⟩
  | dropped hb _ ih => exact Text.isBlank_cons.mpr ⟨hb, ih ho⟩
  | idle _ _ ih => exact absurd (Text.isBlank_cons.mp (ih ho)).1 (by decide)

/-- Corrections leave every character that is no blank, or one in its place. -/
theorem isBlank_of_isBlank_corrected (h : Text.isBlank (corrected s) = true) :
    Text.isBlank s = true := by
  have hspelt : Text.isBlank (correctSpelling (insertSemicolons s)) = true := by
    rw [corrected, closeBlocks] at h
    split at h
    · exact (Text.isBlank_append.mp h).1
    · exact h
  have hended := (correctSpelling_alike (insertSemicolons s)).isBlank_of_isBlank hspelt
  revert hended
  refine insertSemicolons_relates
    (R := fun s o => Text.isBlank o = true → Text.isBlank s = true) id ?_ ?_ s
  · intro c s o ih h
    obtain ⟨hc, h⟩ := Text.isBlank_cons.mp h
    exact Text.isBlank_cons.mpr ⟨hc, ih h⟩
  · intro decl more o hdecl _ _ h
    have hblank := (Text.isBlank_append.mp h).1
    rw [hdecl.not_isBlank] at hblank
    cases hblank

theorem isValid_of_isBlank (h : Text.isBlank s = true) : (validate s).isValid = true := by
  obtain ⟨hextra, hformat⟩ := repairable_of_isBlank h
  have hbalance : balance s = ⟨0, false⟩ := by
    have hbraceless := balanceFrom_braceless (.of_isRun (isRun_of_isBlank h)) 0 false []
    rwa [List.append_nil] at hbraceless
  refine isValid_iff.mpr ⟨hbalance, ?_, hformat⟩
  rw [← Bool.not_eq_true, lacksSemicolon_iff]
  rintro ⟨pre, decl, more, rfl, hdecl, -⟩
  have hblank := (Text.isBlank_append.mp (Text.isBlank_append.mp h).1).2
  rw [hdecl.not_isBlank] at hblank
  cases hblank

/-- A compact stylesheet is blank exactly if nothing but comments and blanks went in. -/
theorem isBlank_output_iff (h : (tidy raw).succeeded = true) :
    Text.isBlank (tidy raw).output = true ↔ Text.isBlank (stripComments raw) = true := by
  rcases tidy_cases raw with ⟨-, houtcome⟩ | ⟨-, -, houtcome⟩ | ⟨-, hinvalid, -, houtcome⟩ |
    ⟨-, -, -, houtcome⟩
  · rw [houtcome] at h
    cases h
  · simp only [houtcome]
    exact isBlank_compact_iff
  · simp only [houtcome]
    refine isBlank_compact_iff.trans ⟨isBlank_of_isBlank_corrected, fun hblank => ?_⟩
    rw [isValid_of_isBlank hblank] at hinvalid
    cases hinvalid
  · rw [houtcome] at h
    cases h

/-- Nothing but comments and blanks is a stylesheet, unless it is blank as it stands. -/
theorem succeeded_of_isBlank_stripComments (hraw : Text.isBlank raw = false)
    (h : Text.isBlank (stripComments raw) = true) : (tidy raw).succeeded = true := by
  have hvalid := isValid_of_isBlank h
  rcases tidy_cases raw with ⟨hblank, -⟩ | ⟨-, -, houtcome⟩ | ⟨-, hinvalid, -⟩ | ⟨-, hinvalid, -⟩
  · rw [hraw] at hblank
    cases hblank
  · rw [houtcome]
    rfl
  · rw [hvalid] at hinvalid
    cases hinvalid
  · rw [hvalid] at hinvalid
    cases hinvalid

theorem not_isBlank_of_succeeded (h : (tidy raw).succeeded = true) : Text.isBlank raw = false := by
  cases hblank : Text.isBlank raw with
  | false => rfl
  | true =>
    rcases tidy_cases raw with ⟨-, houtcome⟩ | ⟨hraw, -⟩ | ⟨hraw, -⟩ | ⟨hraw, -⟩
    · rw [houtcome] at h
      cases h
    all_goals
      rw [hblank] at hraw
      cases hraw

end TextTidy.Css
