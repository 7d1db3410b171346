import TextTidy.Proofs.Css.Format

/-!
# Texts with the same blocks

Two texts are alike if they differ only in words, in blanks and in semicolons right before a closing
brace. None of these can make or unmake a brace or a colon, so texts that are alike have the same
balance, and their blocks have sound parts at the same places.
-/

namespace TextTidy.Css

/-- The second text is the first with some words of name characters replaced by others, some blanks
replaced or left out, and some semicolons left out before a closing brace. -/
inductive Alike : Text → Text → Prop where
  | nil : Alike [] []
  | keep (c : CodePoint) {s o : Text} : Alike s o → Alike (c :: s) (c :: o)
  | word {wrong right s o : Text} (hwrong : ∀ c ∈ wrong, isNameChar c = true)
      (hright : ∀ c ∈ right, isNameChar c = true) (hne : wrong ≠ []) (hne' : right ≠ []) :
      Alike s o → Alike (wrong ++ s) (right ++ o)
  | blank {b b' : CodePoint} {s o : Text} (hb : b.isBlank = true) (hb' : b'.isBlank = true) :
      Alike s o → Alike (b :: s) (b' :: o)
  | dropped {b : CodePoint} {s o : Text} (hb : b.isBlank = true) : Alike s o → Alike (b :: s) o
  | idle {gap s o : Text} (hgap : Text.isBlank gap = true) :
      Alike (.char '}' :: s) o → Alike (.char ';' :: (gap ++ .char '}' :: s)) o

namespace Alike

variable {s o : Text}

theorem refl (s : Text) : Alike s s := by
  induction s with
  | nil => exact .nil
  | cons c s ih => exact .keep c ih

theorem append {t u : Text} (h : Alike s o) (h' : Alike t u) : Alike (s ++ t) (o ++ u) := by
  induction h with
  | nil => exact h'
  | keep c _ ih => exact .keep c ih
  | word hwrong hright hne hne' _ ih =>
    rw [List.append_assoc, List.append_assoc]
    exact .word hwrong hright hne hne' ih
  | blank hb hb' _ ih => exact .blank hb hb' ih
  | dropped hb _ ih => exact .dropped hb ih
  | @idle gap s o hgap _ ih =>
    have hassoc : CodePoint.char ';' :: (gap ++ .char '}' :: s) ++ t =
        .char ';' :: (gap ++ .char '}' :: (s ++ t)) := by simp
    rw [hassoc]
    exact .idle hgap ih

/-! ## Braces -/

/-- No brace is new. -/
theorem mem_or (h : Alike s o) {c : CodePoint} (hc : c ∈ o) : c ∈ s ∨ isBrace c = false := by
  induction h with
  | nil => exact Or.inl hc
  | keep x _ ih =>
    rcases List.mem_cons.mp hc with rfl | hc
    · exact Or.inl (by simp)
    · exact (ih hc).imp_left (List.mem_cons_of_mem x)
  | @word wrong _ _ _ hwrong hright _ _ _ ih =>
    rcases List.mem_append.mp hc with hc | hc
    · exact Or.inr (Braceless.of_isRun (isRun_of_name hright) c hc)
    · exact (ih hc).imp_left (List.mem_append_right wrong)
  | @blank b _ _ _ _ hb' _ ih =>
    rcases List.mem_cons.mp hc with rfl | hc
    · exact Or.inr (not_isBrace_of_isBlank hb')
    · exact (ih hc).imp_left (List.mem_cons_of_mem b)
  | @dropped b _ _ _ _ ih => exact (ih hc).imp_left (List.mem_cons_of_mem b)
  | idle _ _ ih =>
    refine (ih hc).imp_left fun hmem => ?_
    exact List.mem_cons_of_mem _ (List.mem_append_right _ hmem)

theorem braceless (h : Alike s o) (hs : Braceless s) : Braceless o := by
  intro c hc
  rcases h.mem_or hc with hmem | hbrace
  · exact hs c hmem
  · exact hbrace

theorem balanceFrom_eq (h : Alike s o) (depth : Nat) (extra : Bool) :
    balanceFrom depth extra o = balanceFrom depth extra s := by
  induction h generalizing depth extra with
  | nil => rfl
  | keep c _ ih =>
    rw [← List.singleton_append, balanceFrom_append, ih, ← balanceFrom_append,
      List.singleton_append]
  | word hwrong hright _ _ _ ih =>
    rw [balanceFrom_braceless (.of_isRun (isRun_of_name hright)),
      balanceFrom_braceless (.of_isRun (isRun_of_name hwrong)), ih]
  | blank hb hb' _ ih =>
    rw [balanceFrom_cons_of_not_isBrace (not_isBrace_of_isBlank hb),
      balanceFrom_cons_of_not_isBrace (not_isBrace_of_isBlank hb'), ih]
  | dropped hb _ ih =>
    rw [balanceFrom_cons_of_not_isBrace (not_isBrace_of_isBlank hb), ih]
  | @idle gap s _ hgap _ ih =>
    have hsemi : isBrace (.char ';') = false := by decide
    rw [ih, balanceFrom_cons_of_not_isBrace hsemi,
      balanceFrom_braceless (.of_isRun (isRun_of_isBlank hgap))]

theorem balance_eq (h : Alike s o) : balance o = balance s :=
  h.balanceFrom_eq 0 false

/-! ## Parts -/

theorem isBlank_eq (h : Alike s o) (hs : IsRun s) : Text.isBlank s = Text.isBlank o := by
  have hname : ∀ {name : Text}, (∀ c ∈ name, isNameChar c = true) → name ≠ [] →
      ∀ t, Text.isBlank (name ++ t) = false := by
    intro name hchars hne t
    cases name with
    | nil => exact absurd rfl hne
    | cons c name => simp [Text.isBlank, not_isBlank_of_isNameChar (hchars c (by simp))]
  induction h with
  | nil => rfl
  | keep c _ ih =>
    have := ih (isRun_cons.mp hs).2
    simp only [Text.isBlank, List.all_cons] at this ⊢
    rw [this]
  | word hwrong hright hne hne' _ _ => rw [hname hwrong hne, hname hright hne']
  | blank hb hb' _ ih =>
    have := ih (isRun_cons.mp hs).2
    simp only [Text.isBlank, List.all_cons, hb, hb'] at this ⊢
    rw [this]
  | dropped hb _ ih =>
    have := ih (isRun_cons.mp hs).2
    simp only [Text.isBlank, List.all_cons, hb, Bool.true_and] at this ⊢
    rw [this]
  | idle _ _ _ => exact absurd (isRun_cons.mp hs).1 (by decide)

/-- The first colons of two texts correspond: neither text has one, or what is before them and what
is behind them is alike. -/
def ColonsAlike (s o : Text) : Prop :=
  (.char ':' ∉ s ∧ .char ':' ∉ o) ∨
  ∃ name value name' value', s = name ++ .char ':' :: value ∧
    o = name' ++ .char ':' :: value' ∧ .char ':' ∉ name ∧ .char ':' ∉ name' ∧
    Alike name name' ∧ Alike value value'

theorem ColonsAlike.append {x y : Text} (hxy : Alike x y) (hx : .char ':' ∉ x)
    (hy : .char ':' ∉ y) (h : ColonsAlike s o) : ColonsAlike (x ++ s) (y ++ o) := by
  rcases h with ⟨hs, ho⟩ | ⟨name, value, name', value', rfl, rfl, hn, hn', hname, hvalue⟩
  · exact Or.inl ⟨by simp [hx, hs], by simp [hy, ho]⟩
  · exact Or.inr ⟨x ++ name, value, y ++ name', value', by simp, by simp, by simp [hx, hn],
      by simp [hy, hn'], hxy.append hname, hvalue⟩

theorem colonsAlike (h : Alike s o) (hs : IsRun s) : ColonsAlike s o := by
  have hword : ∀ {name : Text}, (∀ c ∈ name, isNameChar c = true) → .char ':' ∉ name := by
    intro name hchars hmem
    exact absurd (hchars _ hmem) (by decide)
  have hblank : ∀ {b : CodePoint}, b.isBlank = true → .char ':' ∉ [b] := by
    intro b hb hmem
    obtain rfl := List.mem_singleton.mp hmem
    exact absurd hb (by decide)
  induction h with
  | nil => exact Or.inl ⟨by simp, by simp⟩
  | keep c h ih =>
    by_cases hc : c = .char ':'
    · subst hc
      exact Or.inr ⟨[], _, [], _, rfl, rfl, by simp, by simp, .nil, h⟩
    · have hmem : .char ':' ∉ [c] := by
        rw [List.mem_singleton]
        exact Ne.symm hc
      exact ColonsAlike.append (.keep c .nil) hmem hmem (ih (isRun_cons.mp hs).2)
  | @word wrong right _ _ hwrong hright hne hne' _ ih =>
    have hwords := Alike.word hwrong hright hne hne' .nil
    rw [List.append_nil, List.append_nil] at hwords
    exact ColonsAlike.append hwords (hword hwrong) (hword hright) (ih (isRun_append.mp hs).2)
  | blank hb hb' _ ih =>
    exact ColonsAlike.append (.blank hb hb' .nil) (hblank hb) (hblank hb')
      (ih (isRun_cons.mp hs).2)
  | dropped hb _ ih =>
    exact ColonsAlike.append (.dropped hb .nil) (hblank hb) (by simp) (ih (isRun_cons.mp hs).2)
  | idle _ _ _ => exact absurd (isRun_cons.mp hs).1 (by decide)

theorem partOk_eq (h : Alike s o) (hs : IsRun s) : partOk s = partOk o := by
  have hmalformed : malformed s = malformed o := by
    rcases h.colonsAlike hs with ⟨hs, ho⟩ | ⟨name, value, name', value', rfl, rfl, hn, hn', hname,
      hvalue⟩
    · rw [malformed_of_no_colon hs, malformed_of_no_colon ho]
    · obtain ⟨hnrun, hvrun⟩ := isRun_append.mp hs
      rw [malformed_of_colon hn, malformed_of_colon hn', hname.isBlank_eq hnrun,
        hvalue.isBlank_eq (isRun_cons.mp hvrun).2]
  rw [partOk, partOk, h.isBlank_eq hs, hmalformed]

/-! ## Blocks -/

/-- A reader that stands at corresponding places of two texts finds the same in both. -/
def ReadAlike (s o : Text) : Prop :=
  wellFormedFrom .outside s = wellFormedFrom .outside o ∧
  ∀ sound {part part' : Text}, IsRun part → Alike part part' →
    wellFormedFrom (.block sound part) s = wellFormedFrom (.block sound part') o

theorem ReadAlike.append {x y : Text} (hxy : Alike x y) (hx : IsRun x) (hy : IsRun y)
    (h : ReadAlike s o) : ReadAlike (x ++ s) (y ++ o) := by
  constructor
  · rw [wellFormedFrom_outside_run hx, wellFormedFrom_outside_run hy, h.1]
  · intro sound part part' hrun hpart
    rw [wellFormedFrom_block_run hx, wellFormedFrom_block_run hy]
    exact h.2 sound (isRun_append.mpr ⟨hrun, hx⟩) (hpart.append hxy)

theorem ReadAlike.delimiter {d : CodePoint} (hd : isDelimiter d = true) (h : ReadAlike s o) :
    ReadAlike (d :: s) (d :: o) := by
  obtain ⟨hout, hin⟩ := h
  rcases isDelimiter_iff.mp hd with rfl | rfl | rfl
  · refine ⟨hout, fun sound part part' hrun hpart => ?_⟩
    rw [wellFormedFrom, wellFormedFrom, hpart.partOk_eq hrun]
    exact hin _ isRun_nil .nil
  · exact ⟨hin true isRun_nil .nil, fun _ _ _ _ _ => hin true isRun_nil .nil⟩
  · refine ⟨hout, fun sound part part' hrun hpart => ?_⟩
    rw [wellFormedFrom, wellFormedFrom, hpart.partOk_eq hrun, hout]

/-- A semicolon before a closing brace ends the part that the brace would end. -/
theorem ReadAlike.idle {gap : Text} (hgap : Text.isBlank gap = true)
    (h : ReadAlike (.char '}' :: s) o) : ReadAlike (.char ';' :: (gap ++ .char '}' :: s)) o := by
  have hrun := isRun_of_isBlank hgap
  constructor
  · rw [wellFormedFrom_outside_cons (by decide), wellFormedFrom_outside_run hrun, h.1]
  · intro sound part part' hpartRun hpart
    have hgapOk : partOk gap = true := by
      rw [partOk, hgap, Bool.true_or]
    calc wellFormedFrom (.block sound part) (.char ';' :: (gap ++ .char '}' :: s))
        = wellFormedFrom (.block (sound && partOk part) []) (gap ++ .char '}' :: s) := rfl
      _ = (sound && partOk part && partOk gap && wellFormedFrom .outside s) := by
          rw [wellFormedFrom_block_run hrun, List.nil_append, wellFormedFrom]
      _ = wellFormedFrom (.block sound part) (.char '}' :: s) := by
          rw [hgapOk, Bool.and_true, wellFormedFrom]
      _ = wellFormedFrom (.block sound part') o := h.2 sound hpartRun hpart

theorem readAlike (h : Alike s o) : ReadAlike s o := by
  have hsingle : ∀ {c : CodePoint}, isDelimiter c = false → IsRun [c] :=
    fun hc => isRun_cons.mpr ⟨hc, isRun_nil⟩
  induction h with
  | nil => exact ⟨rfl, fun _ _ _ _ _ => rfl⟩
  | keep c _ ih =>
    cases hc : isDelimiter c with
    | true => exact ih.delimiter hc
    | false => exact ReadAlike.append (.keep c .nil) (hsingle hc) (hsingle hc) ih
  | word hwrong hright hne hne' _ ih =>
    have hwords := Alike.word hwrong hright hne hne' .nil
    rw [List.append_nil, List.append_nil] at hwords
    exact ReadAlike.append hwords (isRun_of_name hwrong) (isRun_of_name hright) ih
  | blank hb hb' _ ih =>
    exact ReadAlike.append (.blank hb hb' .nil) (hsingle (not_isDelimiter_of_isBlank hb))
      (hsingle (not_isDelimiter_of_isBlank hb')) ih
  | dropped hb _ ih =>
    exact ReadAlike.append (.dropped hb .nil) (hsingle (not_isDelimiter_of_isBlank hb)) isRun_nil
      ih
  | idle hgap _ ih => exact ih.idle hgap

theorem wellFormed_eq (h : Alike s o) : wellFormed o = wellFormed s := by
  rw [wellFormed_eq_wellFormedFrom, wellFormed_eq_wellFormedFrom, h.readAlike.1]

end Alike

end TextTidy.Css
