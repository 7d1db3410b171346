import TextTidy.Proofs.Scan
import TextTidy.Proofs.Utf8
import TextTidy.Text.TerminalEscape

/-!
# Texts with control sequences

The pattern for control sequences takes as many parameter characters as there are, and then as many
intermediate ones. As no character is of two kinds, it misses no sequence by that; so a text without
its control sequences is the text itself exactly if it has none.
-/

namespace TextTidy.Text

/-- Somewhere in the text stands a control sequence: an escape character and a bracket, parameter
characters, intermediate ones, and a final one. -/
def HoldsEscape (s : Text) : Prop :=
  ∃ before parameters intermediates final behind,
    s = before ++
      .char '\x1b' :: .char '[' :: (parameters ++ (intermediates ++ final :: behind)) ∧
    (∀ c ∈ parameters, isBetween 0x30 0x3F c = true) ∧
    (∀ c ∈ intermediates, isBetween 0x20 0x2F c = true) ∧ isBetween 0x40 0x7E final = true

/-! ## Kinds of characters -/

theorem isBetween_iff {low high : Nat} {c : CodePoint} :
    isBetween low high c = true ↔ low ≤ c.value ∧ c.value ≤ high := by
  simp [isBetween]

theorem not_isBetween_of_lt {low high low' high' : Nat} {c : CodePoint}
    (h : isBetween low high c = true) (hapart : high < low' ∨ high' < low) :
    isBetween low' high' c = false := by
  rw [isBetween_iff] at h
  rw [← Bool.not_eq_true, isBetween_iff]
  omega

/-- A run of characters of one kind is followed by a character of no such kind. -/
theorem span_isBetween {low high : Nat} {run : Text} (hrun : ∀ c ∈ run, isBetween low high c = true)
    {next : CodePoint} (hnext : isBetween low high next = false) (rest : Text) :
    (run ++ next :: rest).takeWhile (isBetween low high) = run ∧
      (run ++ next :: rest).dropWhile (isBetween low high) = next :: rest :=
  ⟨takeWhile_span hrun hnext rest, dropWhile_span hrun hnext rest⟩

/-! ## The pattern -/

theorem terminalEscape_sequence {parameters intermediates : Text} {final : CodePoint}
    (hparameters : ∀ c ∈ parameters, isBetween 0x30 0x3F c = true)
    (hintermediates : ∀ c ∈ intermediates, isBetween 0x20 0x2F c = true)
    (hfinal : isBetween 0x40 0x7E final = true) (before : Option CodePoint) (behind : Text) :
    terminalEscape before (.char '\x1b')
        (.char '[' :: (parameters ++ (intermediates ++ final :: behind))) =
      some ⟨1 + parameters.length + intermediates.length + 1, ()⟩ := by
  obtain ⟨next, rest, hrest, hnext⟩ : ∃ next rest, intermediates ++ final :: behind = next :: rest ∧
      isBetween 0x30 0x3F next = false := by
    cases intermediates with
    | nil => exact ⟨final, behind, rfl, not_isBetween_of_lt hfinal (by decide)⟩
    | cons c intermediates =>
      exact ⟨c, _, rfl, not_isBetween_of_lt (hintermediates c List.mem_cons_self) (by decide)⟩
  obtain ⟨htake, hdrop⟩ := span_isBetween hparameters hnext rest
  obtain ⟨htake', hdrop'⟩ :=
    span_isBetween hintermediates (not_isBetween_of_lt hfinal (by decide)) behind
  rw [← hrest] at htake hdrop
  simp only [terminalEscape, htake, hdrop, htake', hdrop', hfinal, if_true]

theorem exists_sequence {before : Option CodePoint} {c : CodePoint} {rest : Text}
    {taken : Taken Unit} (h : terminalEscape before c rest = some taken) :
    ∃ parameters intermediates final behind, c = .char '\x1b' ∧
      rest = .char '[' :: (parameters ++ (intermediates ++ final :: behind)) ∧
      (∀ c ∈ parameters, isBetween 0x30 0x3F c = true) ∧
      (∀ c ∈ intermediates, isBetween 0x20 0x2F c = true) ∧ isBetween 0x40 0x7E final = true := by
  unfold terminalEscape at h
  split at h
  · rename_i rest
    dsimp only at h
    split at h
    · rename_i final behind hfinal
      split at h
      · rename_i hkind
        refine ⟨rest.takeWhile (isBetween 0x30 0x3F),
          (rest.dropWhile (isBetween 0x30 0x3F)).takeWhile (isBetween 0x20 0x2F), final, behind,
          rfl, ?_, fun c hc => List.mem_takeWhile_imp hc, fun c hc => List.mem_takeWhile_imp hc,
          hkind⟩
        rw [← hfinal, List.takeWhile_append_dropWhile, List.takeWhile_append_dropWhile]
      · cases h
    · cases h
  · cases h

theorem occursIn_terminalEscape_iff {s : Text} :
    terminalEscape.occursIn s = true ↔ HoldsEscape s := by
  rw [Pattern.occursIn_eq_true_iff]
  constructor
  · rintro ⟨before, c, rest, taken, rfl, htaken⟩
    obtain ⟨parameters, intermediates, final, behind, rfl, rfl, hkinds⟩ := exists_sequence htaken
    exact ⟨before, parameters, intermediates, final, behind, rfl, hkinds⟩
  · rintro ⟨before, parameters, intermediates, final, behind, rfl, hparameters, hintermediates,
      hfinal⟩
    exact ⟨before, _, _, _, rfl,
      terminalEscape_sequence hparameters hintermediates hfinal before.getLast? behind⟩

/-! ## Texts without them -/

theorem dropEscapes_eq_self_iff {s : Text} : dropEscapes s = s ↔ ¬ HoldsEscape s := by
  rw [dropEscapes, Pattern.erase_eq_self_iff, ← Bool.not_eq_true, occursIn_terminalEscape_iff]

theorem encodable_dropEscapes {s : Text} (h : Encodable s) : Encodable (dropEscapes s) := by
  refine h.of_mem fun c hc => Or.inl ?_
  rcases Pattern.mem_replace hc with hin | ⟨value, hnil⟩
  · exact hin
  · cases hnil

end TextTidy.Text
