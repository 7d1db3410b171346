import TextTidy.Proofs.Css.Alike
import TextTidy.Proofs.Css.Repair
import TextTidy.Proofs.Css.Squeeze

/-!
# Compact texts are sound

Compaction only rewrites blanks and leaves out idle semicolons. So the compact text is like the one
it is made from, and a declaration that runs on into the next one there has done so before. What
compaction can bring about is a declaration that ends directly before a closing brace.
-/

namespace TextTidy.Css

/-- The second text is the first with some blanks replaced or left out, and some semicolons left out
before a closing brace, together with the blanks between them. -/
inductive Condensed : Text → Text → Prop where
  | nil : Condensed [] []
  | keep (c : CodePoint) {s o : Text} : Condensed s o → Condensed (c :: s) (c :: o)
  | blank {b b' : CodePoint} {s o : Text} (hb : b.isBlank = true) (hb' : b'.isBlank = true) :
      Condensed s o → Condensed (b :: s) (b' :: o)
  | dropped {b : CodePoint} {s o : Text} (hb : b.isBlank = true) :
      Condensed s o → Condensed (b :: s) o
  | idle {gap s o : Text} (hgap : Text.isBlank gap = true) :
      Condensed (.char '}' :: s) (.char '}' :: o) →
      Condensed (.char ';' :: (gap ++ .char '}' :: s)) (.char '}' :: o)

namespace Condensed

variable {s o : Text}

theorem alike (h : Condensed s o) : Alike s o := by
  induction h with
  | nil => exact .nil
  | keep c _ ih => exact .keep c ih
  | blank hb hb' _ ih => exact .blank hb hb' ih
  | dropped hb _ ih => exact .dropped hb ih
  | idle hgap _ ih => exact .idle hgap ih

/-- What was made from a closing brace and a gap before it was made from the brace. -/
theorem of_gap {gap : Text} (hgap : Text.isBlank gap = true)
    (h : Condensed (gap ++ .char '}' :: s) (.char '}' :: o)) :
    Condensed (.char '}' :: s) (.char '}' :: o) := by
  have hbrace : ∀ {b : CodePoint}, b.isBlank = true → b ≠ .char '}' := by
    rintro b hb rfl
    exact absurd hb (by decide)
  induction gap with
  | nil => exact h
  | cons b gap ih =>
    obtain ⟨hb, hgap⟩ := Text.isBlank_cons.mp hgap
    rw [List.cons_append] at h
    generalize hs : b :: (gap ++ .char '}' :: s) = t at h
    cases h with
    | keep c _ => exact absurd (List.cons.inj hs).1 (hbrace hb)
    | blank hb' hb'' _ => exact absurd rfl (hbrace hb'')
    | dropped hb' h =>
      obtain ⟨rfl, rfl⟩ := List.cons.inj hs
      exact ih hgap h
    | idle hgap' _ =>
      obtain ⟨rfl, -⟩ := List.cons.inj hs
      exact absurd hb (by decide)

/-- A condensed text in two parts comes from a text in two parts. -/
theorem split {o₁ o₂ : Text} (h : Condensed s (o₁ ++ o₂)) :
    ∃ s₁ s₂, s = s₁ ++ s₂ ∧ Condensed s₁ o₁ ∧ Condensed s₂ o₂ := by
  generalize ho : o₁ ++ o₂ = o at h
  induction h generalizing o₁ with
  | nil =>
    obtain ⟨rfl, rfl⟩ := List.append_eq_nil_iff.mp ho
    exact ⟨[], [], rfl, .nil, .nil⟩
  | @keep c s o h ih =>
    cases o₁ with
    | nil =>
      rw [List.nil_append] at ho
      exact ⟨[], c :: s, rfl, .nil, by rw [ho]; exact .keep c h⟩
    | cons x o₁ =>
      obtain ⟨rfl, hrest⟩ := List.cons.inj ho
      obtain ⟨s₁, s₂, rfl, h₁, h₂⟩ := ih hrest
      exact ⟨x :: s₁, s₂, rfl, .keep x h₁, h₂⟩
  | @blank b b' s o hb hb' h ih =>
    cases o₁ with
    | nil =>
      rw [List.nil_append] at ho
      exact ⟨[], b :: s, rfl, .nil, by rw [ho]; exact .blank hb hb' h⟩
    | cons x o₁ =>
      obtain ⟨rfl, hrest⟩ := List.cons.inj ho
      obtain ⟨s₁, s₂, rfl, h₁, h₂⟩ := ih hrest
      exact ⟨b :: s₁, s₂, rfl, .blank hb hb' h₁, h₂⟩
  | @dropped b s o hb h ih =>
    obtain ⟨s₁, s₂, rfl, h₁, h₂⟩ := ih ho
    exact ⟨b :: s₁, s₂, rfl, .dropped hb h₁, h₂⟩
  | @idle gap s o hgap h ih =>
    cases o₁ with
    | nil =>
      rw [List.nil_append] at ho
      exact ⟨[], _, rfl, .nil, by rw [ho]; exact .idle hgap h⟩
    | cons x o₁ =>
      obtain ⟨s₁, s₂, hs, h₁, h₂⟩ := ih ho
      obtain ⟨rfl, ho⟩ := List.cons.inj ho
      cases s₁ with
      | nil => cases h₁
      | cons y s₁ =>
        obtain ⟨rfl, rfl⟩ := List.cons.inj hs
        exact ⟨.char ';' :: (gap ++ .char '}' :: s₁), s₂, by simp, .idle hgap h₁, h₂⟩

/-! ## What small texts are made from -/

theorem ne_nil (h : Condensed s o) (ho : o ≠ []) : s ≠ [] := by
  rintro rfl
  cases h
  exact ho rfl

theorem isBlank_of_isBlank (h : Condensed s o) (ho : Text.isBlank o = true) :
    Text.isBlank s = true := by
  induction h with
  | nil => rfl
  | keep c _ ih =>
    obtain ⟨hc, ho⟩ := Text.isBlank_cons.mp ho
    exact Text.isBlank_cons.mpr ⟨hc, ih ho⟩
  | blank hb _ _ ih => exact Text.isBlank_cons.mpr ⟨hb, ih (Text.isBlank_cons.mp ho).2⟩
  | dropped hb _ ih => exact Text.isBlank_cons.mpr ⟨hb, ih ho⟩
  | idle _ _ _ => exact absurd (Text.isBlank_cons.mp ho).1 (by decide)

theorem isRun (h : Condensed s o) (ho : IsRun o) : IsRun s := by
  induction h with
  | nil => exact ho
  | keep c _ ih =>
    obtain ⟨hc, ho⟩ := isRun_cons.mp ho
    exact isRun_cons.mpr ⟨hc, ih ho⟩
  | blank hb _ _ ih =>
    exact isRun_cons.mpr ⟨not_isDelimiter_of_isBlank hb, ih (isRun_cons.mp ho).2⟩
  | dropped hb _ ih => exact isRun_cons.mpr ⟨not_isDelimiter_of_isBlank hb, ih ho⟩
  | idle _ _ _ => exact absurd (isRun_cons.mp ho).1 (by decide)

/-- A single character that is no blank and no brace stands between blanks. -/
theorem single {c : CodePoint} (hc : c.isBlank = false) (hne : c ≠ .char '}')
    (h : Condensed s [c]) :
    ∃ gap gap', s = gap ++ c :: gap' ∧ Text.isBlank gap = true ∧ Text.isBlank gap' = true := by
  generalize ho : [c] = o at h
  induction h with
  | nil => cases ho
  | @keep x s o h _ =>
    obtain ⟨rfl, rfl⟩ := List.cons.inj ho
    exact ⟨[], s, rfl, rfl, h.isBlank_of_isBlank rfl⟩
  | blank _ hb' _ _ =>
    obtain ⟨rfl, -⟩ := List.cons.inj ho
    rw [hc] at hb'
    cases hb'
  | @dropped b s o hb _ ih =>
    obtain ⟨gap, gap', rfl, hgap, hgap'⟩ := ih ho
    exact ⟨b :: gap, gap', rfl, Text.isBlank_cons.mpr ⟨hb, hgap⟩, hgap'⟩
  | idle _ _ _ => exact absurd (List.cons.inj ho).1 hne

/-- A name is made from characters and blanks, and ends with a name that follows a blank or comes
first. -/
theorem name (h : Condensed s o) (hne : o ≠ []) (hchars : ∀ c ∈ o, isNameChar c = true) :
    ∃ front last gap, s = front ++ (last ++ gap) ∧ IsRun front ∧
      (∀ b ∈ front.getLast?, b.isBlank = true) ∧ last ≠ [] ∧
      (∀ c ∈ last, isNameChar c = true) ∧ Text.isBlank gap = true := by
  induction h with
  | nil => exact absurd rfl hne
  | @keep c s o h ih =>
    have hc := hchars c (by simp)
    by_cases ho : o = []
    · subst ho
      exact ⟨[], [c], s, rfl, isRun_nil, by simp, by simp, by simpa using hc,
        h.isBlank_of_isBlank rfl⟩
    · obtain ⟨front, last, gap, rfl, hfront, hblank, hlast, hname, hgap⟩ :=
        ih ho fun x hx => hchars x (List.mem_cons_of_mem c hx)
      cases front with
      | nil =>
        exact ⟨[], c :: last, gap, rfl, isRun_nil, by simp, by simp,
          by simpa [hc] using hname, hgap⟩
      | cons x front =>
        refine ⟨c :: x :: front, last, gap, rfl,
          isRun_cons.mpr ⟨not_isDelimiter_of_isNameChar hc, hfront⟩, ?_, hlast, hname, hgap⟩
        rw [List.getLast?_cons_cons]
        exact hblank
  | @blank b b' s o _ hb' _ _ =>
    have := not_isBlank_of_isNameChar (hchars b' (by simp))
    rw [hb'] at this
    cases this
  | @dropped b s o hb _ ih =>
    obtain ⟨front, last, gap, rfl, hfront, hblank, hlast, hname, hgap⟩ := ih hne hchars
    refine ⟨b :: front, last, gap, rfl,
      isRun_cons.mpr ⟨not_isDelimiter_of_isBlank hb, hfront⟩, ?_, hlast, hname, hgap⟩
    cases front with
    | nil => simpa using hb
    | cons x front =>
      rw [List.getLast?_cons_cons]
      exact hblank
  | idle _ _ _ => exact absurd (hchars (.char '}') (by simp)) (by decide)

/-- A declaration is made from a text that ends with one: the name that counts is the last one
before the colon. -/
theorem declaration (h : Condensed s o) (ho : IsDeclaration o) :
    ∃ front decl, s = front ++ decl ∧ IsDeclaration decl := by
  obtain ⟨hname, hchars, hgap, hvalue, hrun⟩ := ho
  rename_i name gap value
  have hparts : name ++ (gap ++ .char ':' :: value) =
      name ++ (gap ++ ([.char ':'] ++ value)) := rfl
  rw [hparts] at h
  obtain ⟨sname, _, rfl, hsname, h⟩ := h.split
  obtain ⟨sgap, _, rfl, hsgap, h⟩ := h.split
  obtain ⟨scolon, svalue, rfl, hscolon, hsvalue⟩ := h.split
  obtain ⟨front, last, tail, rfl, -, -, hlast, hlastChars, htail⟩ := hsname.name hname hchars
  obtain ⟨a, b, rfl, ha, hb⟩ := hscolon.single (by decide) (by decide)
  have hblanks : Text.isBlank (tail ++ (sgap ++ a)) = true :=
    Text.isBlank_append.mpr ⟨htail, Text.isBlank_append.mpr ⟨hsgap.isBlank_of_isBlank hgap, ha⟩⟩
  have hvalueRun : IsRun (b ++ svalue) :=
    isRun_append.mpr ⟨isRun_of_isBlank hb, hsvalue.isRun hrun⟩
  refine ⟨front, last ++ ((tail ++ (sgap ++ a)) ++ .char ':' :: (b ++ svalue)), by simp, ?_⟩
  exact .mk hlast hlastChars hblanks (by simp [hsvalue.ne_nil hvalue]) hvalueRun

/-- A blank with a property behind it is made from a text with such a blank, the last one before the
colon, and no delimiter is before that. -/
theorem exists_nextProperty (h : Condensed s o) (ho : nextProperty o = true) :
    ∃ run more, s = run ++ more ∧ IsRun run ∧ nextProperty more = true := by
  obtain ⟨gap, name, gap', rest, rfl, hgapne, hgap, hname, hchars, hgap'⟩ := nextProperty_iff.mp ho
  have hparts : gap ++ (name ++ (gap' ++ .char ':' :: rest)) =
      gap ++ (name ++ (gap' ++ ([.char ':'] ++ rest))) := rfl
  rw [hparts] at h
  obtain ⟨sgap, _, rfl, hsgap, h⟩ := h.split
  obtain ⟨sname, _, rfl, hsname, h⟩ := h.split
  obtain ⟨sgap', _, rfl, hsgap', h⟩ := h.split
  obtain ⟨scolon, srest, rfl, hscolon, -⟩ := h.split
  obtain ⟨front, last, tail, rfl, hfront, hblank, hlast, hlastChars, htail⟩ :=
    hsname.name hname hchars
  obtain ⟨a, b, rfl, ha, -⟩ := hscolon.single (by decide) (by decide)
  have hsgapBlank := hsgap.isBlank_of_isBlank hgap
  have hne : sgap ++ front ≠ [] := by simp [hsgap.ne_nil hgapne]
  obtain ⟨init, x, hinit⟩ := Text.exists_concat hne
  have hx : x.isBlank = true := by
    have hlastx : (sgap ++ front).getLast? = some x := by rw [hinit, List.getLast?_concat]
    rw [List.getLast?_append] at hlastx
    cases hf : front.getLast? with
    | some y =>
      rw [hf] at hlastx
      obtain rfl : y = x := Option.some.inj hlastx
      exact hblank y hf
    | none =>
      rw [hf] at hlastx
      exact Text.isBlank_iff.mp hsgapBlank x (List.mem_of_getLast? hlastx)
  have hrun := isRun_append.mpr ⟨isRun_of_isBlank hsgapBlank, hfront⟩
  rw [hinit] at hrun
  have hblanks : Text.isBlank (tail ++ (sgap' ++ a)) = true :=
    Text.isBlank_append.mpr ⟨htail, Text.isBlank_append.mpr ⟨hsgap'.isBlank_of_isBlank hgap', ha⟩⟩
  refine ⟨init, [x] ++ (last ++ ((tail ++ (sgap' ++ a)) ++ .char ':' :: (b ++ srest))), ?_,
    (isRun_append.mp hrun).1, ?_⟩
  · calc sgap ++ (front ++ (last ++ tail) ++ (sgap' ++ (a ++ .char ':' :: b ++ srest)))
        = (sgap ++ front) ++ (last ++ ((tail ++ (sgap' ++ a)) ++ .char ':' :: (b ++ srest))) := by
          simp
      _ = _ := by rw [hinit, List.append_assoc]
  · exact nextProperty_iff.mpr ⟨[x], last, _, _, rfl, by simp,
      Text.isBlank_cons.mpr ⟨hx, rfl⟩, hlast, hlastChars, hblanks⟩

/-- A declaration that runs on into the next one has done so before. -/
theorem runsOn (h : Condensed s o) (ho : RunsOn o) : RunsOn s := by
  obtain ⟨pre, decl, more, rfl, hdecl, hnext⟩ := ho
  obtain ⟨s', smore, rfl, h', hmore⟩ := h.split
  obtain ⟨spre, sdecl, rfl, -, hsdecl⟩ := h'.split
  obtain ⟨front, decl', rfl, hdecl'⟩ := hsdecl.declaration hdecl
  obtain ⟨run, more', rfl, hrun, hnext'⟩ := hmore.exists_nextProperty hnext
  exact ⟨spre ++ front, decl' ++ run, more', by simp, hdecl'.append hrun, hnext'⟩

end Condensed

/-! ## Compaction -/

theorem squeezeFrom_condensed (s : Text) (after : Bool) :
    Condensed s (squeezeFrom after false s) ∧
      ∀ b : CodePoint, b.isBlank = true → Condensed (b :: s) (squeezeFrom after true s) := by
  induction s generalizing after with
  | nil => exact ⟨.nil, fun b hb => .dropped hb .nil⟩
  | cons c s ih =>
    have hidle : closes s = true → Condensed (.char ';' :: s) (squeezeFrom true false s) := by
      intro hcloses
      have hrest := (ih true).1
      obtain ⟨gap, rest, rfl, hgap⟩ := closes_iff.mp hcloses
      rw [squeezeFrom_closing hgap] at hrest ⊢
      exact .idle hgap (hrest.of_gap hgap)
    constructor
    · rcases squeezeFrom_cases after false c s with ⟨hc, h⟩ | ⟨rfl, hcloses, h⟩ | ⟨-, -, h⟩ |
        ⟨hgap, -⟩
      · rw [h]
        exact (ih after).2 c hc
      · rw [h]
        exact hidle hcloses
      · rw [h]
        exact .keep c (ih _).1
      · cases hgap
    · intro b hb
      rcases squeezeFrom_cases after true c s with ⟨hc, h⟩ | ⟨rfl, hcloses, h⟩ | ⟨-, -, h⟩ |
        ⟨-, -, -, -, -, h⟩
      · rw [h]
        exact .dropped hb ((ih after).2 c hc)
      · rw [h]
        exact .dropped hb (hidle hcloses)
      · rw [h]
        exact .dropped hb (.keep c (ih _).1)
      · rw [h]
        exact .blank hb (by decide) (.keep c (ih false).1)

theorem compact_condensed (s : Text) : Condensed s (compact s) := by
  rw [compact_eq_squeezeFrom]
  exact (squeezeFrom_condensed s true).1

/-- The compact form of a valid text is balanced and well-formed, and none of its declarations runs
on into the next one. -/
theorem compact_sound {s : Text} (h : (validate s).isValid = true) :
    balance (compact s) = ⟨0, false⟩ ∧ wellFormed (compact s) = true ∧ ¬RunsOn (compact s) := by
  obtain ⟨hbalance, hlacks, hformat⟩ := isValid_iff.mp h
  have hcondensed := compact_condensed s
  rw [hcondensed.alike.balance_eq, hcondensed.alike.wellFormed_eq]
  exact ⟨hbalance, hformat, fun hruns =>
    not_runsOn_of_not_lacksSemicolon hlacks (hcondensed.runsOn hruns)⟩

/-- What comes of a raw text is sound: balanced, well-formed, with no other error than a lacking
semicolon. Semicolons are lacking directly before closing braces only, where compaction has left
them out. -/
theorem tidy_output_sound (raw : Text) (h : (tidy raw).succeeded = true) :
    (balance (tidy raw).output).balanced = true ∧
      Rule.declarationFormat.check (tidy raw).output = [] ∧
      ((validate (tidy raw).output).errors = [] ∨
        (validate (tidy raw).output).errors = ["Missing semicolon before \x7d detected."]) ∧
      (∀ pre c rest taken, (tidy raw).output = pre ++ c :: rest →
        unterminated pre.getLast? c rest = some taken →
        (rest.drop taken.more).head? = some (.char '}')) ∧
      ¬RunsOn (tidy raw).output := by
  obtain ⟨s, hvalid, houtput⟩ := exists_of_succeeded h
  obtain ⟨hbalance, hformat, hruns⟩ := compact_sound hvalid
  rw [houtput]
  refine ⟨balanced_iff.mpr hbalance, declarationFormat_check_eq_nil_iff.mpr hformat, ?_, ?_, hruns⟩
  · rw [errors_of_repairable (by rw [hbalance]) hformat, hbalance]
    cases lacksSemicolon (compact s)
    · exact Or.inl rfl
    · exact Or.inr rfl
  · intro pre c rest taken hs htaken
    rw [hs] at hruns
    exact head?_of_unterminated hruns htaken

/-- A text that is corrected first, and then loses the last semicolon of its block. -/
theorem tidy_output_sound_corrected :
    (tidy (Text.ofString "a \x7b b : c d : e ; \x7d")).succeeded = true ∧
      (tidy (Text.ofString "a \x7b b : c d : e ; \x7d")).output =
        Text.ofString "a\x7bb:c;d:e\x7d" ∧
      (validate (tidy (Text.ofString "a \x7b b : c d : e ; \x7d")).output).errors =
        ["Missing semicolon before \x7d detected."] ∧
      ¬RunsOn (tidy (Text.ofString "a \x7b b : c d : e ; \x7d")).output := by
  have hsucceeded : (tidy (Text.ofString "a \x7b b : c d : e ; \x7d")).succeeded = true := by
    decide +kernel
  obtain ⟨-, -, herrors, -, hruns⟩ :=
    tidy_output_sound (Text.ofString "a \x7b b : c d : e ; \x7d") hsucceeded
  have hinvalid : (validate (tidy (Text.ofString "a \x7b b : c d : e ; \x7d")).output).errors ≠
      [] := by
    decide +kernel
  exact ⟨hsucceeded, by decide +kernel, herrors.resolve_left hinvalid, hruns⟩

end TextTidy.Css
