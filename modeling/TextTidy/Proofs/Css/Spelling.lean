import TextTidy.Proofs.Css.Alike

/-!
# The spelling pass

The spelling pass replaces words of name characters by others, each before a colon. It does not look
beyond a delimiter, and it never shortens a text.
-/

namespace TextTidy.Css

/-! ## The table -/

theorem misspellings_isNameChar :
    ∀ entry ∈ misspellings,
      (∀ c ∈ Text.ofString entry.wrong, isNameChar c = true) ∧
      (∀ c ∈ Text.ofString entry.right, isNameChar c = true) := by
  decide

theorem misspellings_length :
    ∀ entry ∈ misspellings, 0 < entry.wrong.length ∧
      (Text.ofString entry.wrong).length = entry.wrong.length ∧
      (Text.ofString entry.wrong).length ≤ (Text.ofString entry.right).length := by
  decide

/-- No right name begins like its misspelling. -/
theorem misspellings_differ :
    ∀ entry ∈ misspellings,
      (Text.ofString entry.right).take (Text.ofString entry.wrong).length ≠
        Text.ofString entry.wrong := by
  decide

/-! ## Misspelt words -/

theorem dropStart?_append_of_not_mem {start : List Char} {d : CodePoint}
    (hd : d ∉ start.map CodePoint.char) (s rest : Text) :
    Text.dropStart? start (s ++ d :: rest) = (Text.dropStart? start s).map (· ++ d :: rest) := by
  induction start generalizing s with
  | nil => rfl
  | cons a start ih =>
    obtain ⟨ha, hstart⟩ : d ≠ .char a ∧ d ∉ start.map CodePoint.char := by simpa using hd
    cases s with
    | nil => simp [Text.dropStart?, ha]
    | cons c s =>
      rw [List.cons_append, Text.dropStart?, Text.dropStart?, ih hstart]
      split <;> rfl

/-- What the pass takes is a misspelling of the table with a colon behind it. -/
theorem misspelled_eq_some {before : Option CodePoint} {c : CodePoint} {rest : Text}
    {taken : Taken Misspelling} (h : misspelled before c rest = some taken) :
    taken.value ∈ misspellings ∧ taken.more + 1 = (Text.ofString taken.value.wrong).length ∧
      ∃ behind, c :: rest = Text.ofString taken.value.wrong ++ behind ∧
        colonFollows behind = true := by
  rw [misspelled] at h
  split at h
  · obtain ⟨entry, hmem, hentry⟩ := List.exists_of_findSome?_eq_some h
    split at hentry
    · rename_i behind hdrop
      split at hentry
      · rename_i hcolon
        cases hentry
        obtain ⟨hpos, hlen, -⟩ := misspellings_length entry hmem
        refine ⟨hmem, ?_, behind, Text.dropStart?_eq_some hdrop, hcolon⟩
        show entry.wrong.length - 1 + 1 = (Text.ofString entry.wrong).length
        omega
      · cases hentry
    · cases hentry
  · cases h

theorem drop_misspelled {c : CodePoint} {rest behind : Text} {taken : Taken Misspelling}
    (hs : c :: rest = Text.ofString taken.value.wrong ++ behind)
    (hlen : taken.more + 1 = (Text.ofString taken.value.wrong).length) :
    rest.drop taken.more = behind := by
  have := congrArg (List.drop (taken.more + 1)) hs
  rwa [List.drop_succ_cons, hlen, List.drop_left] at this

theorem findSome?_congr {α β : Type} {f g : α → Option β} {l : List α}
    (h : ∀ a ∈ l, f a = g a) : l.findSome? f = l.findSome? g := by
  induction l with
  | nil => rfl
  | cons a l ih =>
    rw [List.findSome?_cons, List.findSome?_cons, h a (by simp),
      ih fun b hb => h b (List.mem_cons_of_mem a hb)]

/-- Whether a code point ends the word before it and hides what is behind it: it belongs to no word,
and a colon beyond it is not seen. -/
def endsWord (d : CodePoint) : Bool :=
  !isNameChar d && !isWordChar d && !d.isBlank && d != .char ':'

theorem endsWord_iff {d : CodePoint} :
    endsWord d = true ↔
      isNameChar d = false ∧ isWordChar d = false ∧ d.isBlank = false ∧ d ≠ .char ':' := by
  simp [endsWord, and_assoc]

theorem endsWord_of_isDelimiter {d : CodePoint} (hd : isDelimiter d = true) : endsWord d = true :=
  endsWord_iff.mpr ⟨not_isNameChar_of_isDelimiter hd, not_isWordChar_of_isDelimiter hd,
    not_isBlank_of_isDelimiter hd, ne_colon_of_isDelimiter hd⟩

/-- The pass cannot tell the end of a word from the end of the text. -/
theorem misspelled_append_stop {d : CodePoint} (hd : endsWord d = true)
    (before : Option CodePoint) (c : CodePoint) (s rest : Text) :
    misspelled before c (s ++ d :: rest) = misspelled before c s := by
  obtain ⟨hname, -, hblank, hcolon⟩ := endsWord_iff.mp hd
  have hmem : ∀ entry ∈ misspellings, d ∉ entry.wrong.toList.map CodePoint.char := by
    intro entry hentry hin
    rw [(misspellings_isNameChar entry hentry).1 d hin] at hname
    cases hname
  rw [misspelled, misspelled]
  split
  · refine findSome?_congr fun entry hentry => ?_
    rw [← List.cons_append, dropStart?_append_of_not_mem (hmem entry hentry)]
    cases Text.dropStart? entry.wrong.toList (c :: s) with
    | none => rfl
    | some behind => simp only [Option.map_some, colonFollows_append_stop hblank hcolon]
  · rfl

/-- The pass begins at a character of a name only. -/
theorem misspelled_of_not_isNameChar {c : CodePoint} (hc : isNameChar c = false)
    (before : Option CodePoint) (rest : Text) : misspelled before c rest = none := by
  rw [Option.eq_none_iff_forall_ne_some]
  intro taken h
  obtain ⟨hmem, hlen, behind, hs, -⟩ := misspelled_eq_some h
  have hchars := (misspellings_isNameChar taken.value hmem).1
  cases hwrong : Text.ofString taken.value.wrong with
  | nil => simp [hwrong] at hlen
  | cons a wrong =>
    rw [hwrong] at hs hchars
    obtain ⟨rfl, -⟩ := List.cons.inj hs
    rw [hchars c (by simp)] at hc
    cases hc

theorem misspelled_halts_word : Pattern.Halts misspelled endsWord where
  silent before d rest hd := misspelled_of_not_isNameChar (endsWord_iff.mp hd).1 before rest
  blind before c s d rest hd := by
    rw [misspelled_append_stop hd, misspelled_append_stop hd]
  ends before c s d taken hd h := by
    rw [misspelled_append_stop hd] at h
    obtain ⟨_, hlen, behind, hs, _⟩ := misspelled_eq_some h
    have := congrArg List.length hs
    simp only [List.length_cons, List.length_append] at this
    omega
  fresh d c rest hd := by
    simp [misspelled, atWordEdge, (endsWord_iff.mp hd).2.1]

theorem misspelled_halts : Pattern.Halts misspelled isDelimiter :=
  misspelled_halts_word.mono endsWord_of_isDelimiter

theorem correctSpelling_append_stop {d : CodePoint} (hd : endsWord d = true) (s rest : Text) :
    correctSpelling (s ++ d :: rest) = correctSpelling s ++ d :: correctSpelling rest :=
  misspelled_halts_word.replace_append_of_unseen hd
    (fun before c s => misspelled_append_stop hd before c s []) s rest

theorem correctSpelling_append {d : CodePoint} (hd : isDelimiter d = true) (s rest : Text) :
    correctSpelling (s ++ d :: rest) = correctSpelling s ++ d :: correctSpelling rest :=
  correctSpelling_append_stop (endsWord_of_isDelimiter hd) s rest

theorem respelled_append_stop {d : CodePoint} (hd : endsWord d = true) (s rest : Text) :
    respelled (s ++ d :: rest) = respelled s ++ respelled rest :=
  misspelled_halts_word.findAll_append_of_unseen hd
    (fun before c s => misspelled_append_stop hd before c s []) s rest

theorem respelled_append {d : CodePoint} (hd : isDelimiter d = true) (s rest : Text) :
    respelled (s ++ d :: rest) = respelled s ++ respelled rest :=
  respelled_append_stop (endsWord_of_isDelimiter hd) s rest

/-! ## The spelling pass -/

/-- Induction along the spelling pass. -/
theorem correctSpelling_relates {R : Text → Text → Prop} (nil : R [] [])
    (plain : ∀ c {s o}, R s o → R (c :: s) (c :: o))
    (word : ∀ entry ∈ misspellings, ∀ {s o}, R s o →
      R (Text.ofString entry.wrong ++ s) (Text.ofString entry.right ++ o)) (s : Text) :
    R s (correctSpelling s) := by
  refine Pattern.replace_relates nil plain ?_ s
  intro before c rest taken o htaken h
  obtain ⟨hmem, hlen, behind, hs, -⟩ := misspelled_eq_some htaken
  rw [drop_misspelled hs hlen] at h
  rw [hs]
  exact word taken.value hmem h

/-- The pass replaces words by words. -/
theorem correctSpelling_alike (s : Text) : Alike s (correctSpelling s) := by
  refine correctSpelling_relates .nil (fun c _ _ h => .keep c h) ?_ s
  intro entry hmem s o h
  obtain ⟨hwrong, hright⟩ := misspellings_isNameChar entry hmem
  obtain ⟨hpos, heq, hle⟩ := misspellings_length entry hmem
  refine .word hwrong hright ?_ ?_ h
  · exact List.ne_nil_of_length_pos (by omega)
  · exact List.ne_nil_of_length_pos (by omega)

/-- The pass writes no characters but those of the text and of names. -/
theorem mem_correctSpelling {s : Text} {c : CodePoint} (h : c ∈ correctSpelling s) :
    c ∈ s ∨ isNameChar c = true := by
  revert h
  refine correctSpelling_relates (R := fun s o => c ∈ o → c ∈ s ∨ isNameChar c = true) Or.inl
    ?_ ?_ s
  · intro x s o ih h
    rcases List.mem_cons.mp h with rfl | h
    · exact Or.inl List.mem_cons_self
    · exact (ih h).imp_left (List.mem_cons_of_mem x)
  · intro entry hmem s o ih h
    rcases List.mem_append.mp h with h | h
    · exact Or.inr ((misspellings_isNameChar entry hmem).2 c h)
    · exact (ih h).imp_left (List.mem_append_right _)

theorem isRun_correctSpelling {run : Text} (h : IsRun run) : IsRun (correctSpelling run) :=
  fun c hc => (mem_correctSpelling hc).elim (h c) not_isDelimiter_of_isNameChar

theorem length_correctSpelling (s : Text) : s.length ≤ (correctSpelling s).length := by
  refine correctSpelling_relates (R := fun s o => s.length ≤ o.length) (Nat.le_refl 0) ?_ ?_ s
  · intro c s o h
    exact Nat.succ_le_succ h
  · intro entry hmem s o h
    obtain ⟨-, -, hle⟩ := misspellings_length entry hmem
    simp only [List.length_append]
    omega

/-- A respelt word can be told from the misspelling whatever else is left out. -/
theorem respelled_eq_nil_of_filter {f : CodePoint → Bool}
    (hf : ∀ c, isNameChar c = true → f c = true) {s : Text}
    (h : (correctSpelling s).filter f = s.filter f) : respelled s = [] := by
  by_contra hne
  have hfound : misspelled.occursIn s = true := by simpa [Pattern.occursIn, respelled] using hne
  obtain ⟨pre, c, rest, taken, hs, htaken, hreplace⟩ := Pattern.exists_first_match hfound
    fun entry => Text.ofString entry.right
  obtain ⟨hmem, -, behind, hrest, -⟩ := misspelled_eq_some htaken
  obtain ⟨-, -, hle⟩ := misspellings_length taken.value hmem
  obtain ⟨hwrong, hright⟩ := misspellings_isNameChar taken.value hmem
  have hkept : ∀ {name : Text}, (∀ c ∈ name, isNameChar c = true) → name.filter f = name :=
    fun hname => List.filter_eq_self.mpr fun c hc => hf c (hname c hc)
  rw [correctSpelling, hreplace, hs, hrest] at h
  simp only [List.filter_append, hkept hwrong, hkept hright] at h
  have hfront := congrArg (List.take (Text.ofString taken.value.wrong).length)
    (List.append_cancel_left h)
  rw [List.take_left, List.take_append_of_le_length hle] at hfront
  exact misspellings_differ taken.value hmem hfront

/-- The pass keeps a text exactly if it finds nothing in it. -/
theorem correctSpelling_eq_self_iff {s : Text} : correctSpelling s = s ↔ respelled s = [] := by
  constructor
  · intro h
    exact respelled_eq_nil_of_filter (f := fun _ => true) (fun _ _ => rfl) (by rw [h])
  · intro h
    exact Pattern.replace_of_not_occursIn (by simpa [Pattern.occursIn, respelled] using h)

theorem misspelled_ignoresGaps : Pattern.IgnoresGaps misspelled where
  silent before b rest hb := misspelled_of_not_isNameChar (not_isNameChar_of_isBlank hb) before rest
  fresh b c rest hb := by simp [misspelled, atWordEdge, not_isWordChar_of_isBlank hb]

theorem correctSpelling_keepsBraces : KeepsBraces correctSpelling where
  braceless s hs := (correctSpelling_alike s).braceless hs
  opening s rest _ := correctSpelling_append (by decide) s rest
  closing s rest hs := ⟨correctSpelling s, (correctSpelling_alike s).braceless hs,
    correctSpelling_append (by decide) s rest⟩

/-! ## The typo check -/

/-- The check cannot tell a delimiter from the end of the text. -/
theorem propertyName_append_delimiter {d : CodePoint} (hd : isDelimiter d = true)
    (before : Option CodePoint) (c : CodePoint) (s rest : Text) :
    propertyName before c (s ++ d :: rest) = propertyName before c s := by
  have hname := not_isNameChar_of_isDelimiter hd
  have hblank := not_isBlank_of_isDelimiter hd
  simp only [propertyName, Text.takeWhile_append_stop hname, Text.dropWhile_append_stop hname,
    colonFollows_append_delimiter hd, Text.leadingBlanks, Text.takeWhile_append_stop hblank]

theorem propertyName_halts : Pattern.Halts propertyName isDelimiter where
  silent before d rest hd := by simp [propertyName, not_isNameChar_of_isDelimiter hd]
  blind before c s d rest hd := by
    rw [propertyName_append_delimiter hd, propertyName_append_delimiter hd]
  ends before c s d taken hd h := by
    rw [propertyName_append_delimiter hd, propertyName] at h
    split at h
    · rename_i hcolon
      rw [Bool.and_eq_true] at hcolon
      obtain ⟨gap, rest, hbehind, hgap⟩ := colonFollows_iff.mp hcolon.2
      have hsplit := List.takeWhile_append_dropWhile (p := isNameChar) (l := s)
      rw [hbehind] at hsplit
      obtain rfl := (Option.some.inj h).symm
      have hlen := congrArg List.length hsplit
      simp only [hbehind, Text.leadingBlanks_gap hgap (c := .char ':') (by decide),
        List.length_append, List.length_cons] at hlen ⊢
      omega
    · cases h
  fresh d c rest hd := by
    simp [propertyName, atWordEdge, not_isWordChar_of_isDelimiter hd]

theorem propertyName_ignoresGaps : Pattern.IgnoresGaps propertyName where
  silent before b rest hb := by simp [propertyName, not_isNameChar_of_isBlank hb]
  fresh b c rest hb := by simp [propertyName, atWordEdge, not_isWordChar_of_isBlank hb]

end TextTidy.Css
