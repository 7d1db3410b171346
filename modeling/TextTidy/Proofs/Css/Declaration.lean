import TextTidy.Proofs.Scan
import TextTidy.Proofs.Css.Run

/-!
# Declarations without their semicolon

The search for unterminated declarations goes from run to run: no match reaches beyond its run, and
none looks beyond the delimiter behind it. Within a run there is one match at most, because a value
is as long as it can be.
-/

namespace TextTidy.Css

/-! ## Unterminated declarations -/

/-- A declaration as a text: a name, blanks, a colon and a value without delimiters. -/
inductive IsDeclaration : Text → Prop where
  | mk {name gap value : Text} (hname : name ≠ []) (hchars : ∀ c ∈ name, isNameChar c = true)
      (hgap : Text.isBlank gap = true) (hvalue : value ≠ []) (hrun : IsRun value) :
      IsDeclaration (name ++ (gap ++ .char ':' :: value))

theorem IsDeclaration.ne_nil {s : Text} (h : IsDeclaration s) : s ≠ [] := by
  obtain ⟨hname, _, _, _, _⟩ := h
  simp

theorem IsDeclaration.isRun {s : Text} (h : IsDeclaration s) : IsRun s := by
  obtain ⟨_, hchars, hgap, _, hrun⟩ := h
  refine isRun_append.mpr ⟨fun c hc => not_isDelimiter_of_isNameChar (hchars c hc),
    isRun_append.mpr ⟨fun c hc => ?_, isRun_cons.mpr ⟨by decide, hrun⟩⟩⟩
  exact not_isDelimiter_of_isBlank (Text.isBlank_iff.mp hgap c hc)

theorem IsDeclaration.colon_mem {s : Text} (h : IsDeclaration s) : .char ':' ∈ s := by
  obtain ⟨_, _, _, _, _⟩ := h
  simp

theorem IsDeclaration.not_isBlank {s : Text} (h : IsDeclaration s) : Text.isBlank s = false := by
  rw [← Bool.not_eq_true, Text.isBlank_iff]
  intro hblank
  exact absurd (hblank _ h.colon_mem) (by decide)

theorem IsDeclaration.not_isBlank_append {s : Text} (h : IsDeclaration s) (front : Text) :
    Text.isBlank (front ++ s) = false := by
  rw [← Bool.not_eq_true, Text.isBlank_append, h.not_isBlank]
  exact fun hblank => Bool.noConfusion hblank.2

/-- The value of a declaration may go on. -/
theorem IsDeclaration.append {s more : Text} (h : IsDeclaration s) (hmore : IsRun more) :
    IsDeclaration (s ++ more) := by
  obtain ⟨hname, hchars, hgap, hvalue, hrun⟩ := h
  rw [List.append_assoc, List.append_assoc, List.cons_append]
  exact .mk hname hchars hgap (by simp [hvalue]) (isRun_append.mpr ⟨hrun, hmore⟩)

/-- At a name before a colon, what the scan takes is decided by what is behind the colon. -/
theorem unterminated_at_name {c : CodePoint} {tail gap : Text}
    (hchars : ∀ x ∈ c :: tail, isNameChar x = true) (hgap : Text.isBlank gap = true)
    (before : Option CodePoint) (value : Text) :
    unterminated before c (tail ++ (gap ++ .char ':' :: value)) =
      (openValue? value).map fun n =>
        ⟨tail.length + gap.length + 1 + n, c :: (tail ++ (gap ++ .char ':' :: value.take n))⟩ := by
  have hc : isNameChar c = true := hchars c (by simp)
  have htail : ∀ x ∈ tail, isNameChar x = true := fun x hx => hchars x (by simp [hx])
  have hcolon : (CodePoint.char ':').isBlank = false := by decide
  obtain ⟨hfront, hbehind⟩ := span_name htail hgap value
  simp only [unterminated, hc, if_true, hbehind, hfront, Text.trimStart_gap hgap hcolon,
    Text.leadingBlanks_gap hgap hcolon]
  refine Option.map_congr fun n _ => ?_
  have hlen : tail.length + gap.length + 1 + n = tail.length + (gap.length + (n + 1)) := by omega
  rw [hlen, List.take_length_add_append, List.take_length_add_append, List.take_succ_cons]

/-- The scan takes something only at a name before a colon. -/
theorem exists_name_of_unterminated {before : Option CodePoint} {c : CodePoint} {rest : Text}
    {taken : Taken Text} (h : unterminated before c rest = some taken) :
    ∃ tail gap value, rest = tail ++ (gap ++ .char ':' :: value) ∧
      (∀ x ∈ c :: tail, isNameChar x = true) ∧ Text.isBlank gap = true := by
  have hname := List.takeWhile_append_dropWhile (p := isNameChar) (l := rest)
  have hgap := Text.leadingBlanks_append_trimStart (rest.dropWhile isNameChar)
  rw [unterminated] at h
  cases hc : isNameChar c with
  | false => simp [hc] at h
  | true =>
    simp only [hc, if_true] at h
    split at h
    · rename_i value hbehind
      refine ⟨rest.takeWhile isNameChar, Text.leadingBlanks (rest.dropWhile isNameChar), value,
        by rw [← hbehind, hgap, hname], fun x hx => ?_, Text.isBlank_leadingBlanks _⟩
      rcases List.mem_cons.mp hx with rfl | hx
      · exact hc
      · exact List.mem_takeWhile_imp hx
    · cases h

/-- What the scan takes is a declaration, and as long a one as there is. -/
theorem unterminated_eq_some {before : Option CodePoint} {c : CodePoint} {rest : Text}
    {taken : Taken Text} (h : unterminated before c rest = some taken) :
    ∃ more, c :: rest = taken.value ++ more ∧ IsDeclaration taken.value ∧
      taken.value.length = taken.more + 1 ∧ endsDeclaration more = true ∧
      openValue? more = none := by
  obtain ⟨tail, gap, value, rfl, hchars, hgap⟩ := exists_name_of_unterminated h
  rw [unterminated_at_name hchars hgap] at h
  obtain ⟨n, hn, rfl⟩ := Option.map_eq_some_iff.mp h
  obtain ⟨v, more, rfl, rfl, hne, hrun, hends, hnone⟩ := openValue?_eq_some hn
  have htake : (v ++ more).take v.length = v := List.take_left
  refine ⟨more, by simp [htake], ?_, by simp [htake]; omega, hends, hnone⟩
  rw [htake]
  exact .mk (List.cons_ne_nil c tail) hchars hgap hne hrun

theorem drop_unterminated {c : CodePoint} {rest more : Text}
    {taken : Taken Text} (hsplit : c :: rest = taken.value ++ more)
    (hlen : taken.value.length = taken.more + 1) : rest.drop taken.more = more := by
  have := congrArg (List.drop (taken.more + 1)) hsplit
  rwa [List.drop_succ_cons, ← hlen, List.drop_left] at this

/-- The scan takes something wherever a declaration may end without its semicolon. -/
theorem unterminated_isSome {before : Option CodePoint} {c : CodePoint} {rest decl more : Text}
    (hs : c :: rest = decl ++ more) (hdecl : IsDeclaration decl)
    (hends : endsDeclaration more = true) : (unterminated before c rest).isSome = true := by
  obtain ⟨hname, hchars, hgap, hvalue, hrun⟩ := hdecl
  rename_i name gap value
  cases name with
  | nil => exact absurd rfl hname
  | cons x tail =>
    obtain ⟨rfl, rfl⟩ := List.cons.inj hs
    obtain ⟨n, hn⟩ := Option.isSome_iff_exists.mp (openValue?_isSome hvalue hrun hends)
    have hassoc : tail ++ (gap ++ .char ':' :: value) ++ more =
        tail ++ (gap ++ .char ':' :: (value ++ more)) := by simp
    show (unterminated before c (tail ++ (gap ++ .char ':' :: value) ++ more)).isSome = true
    rw [hassoc, unterminated_at_name hchars hgap, hn]
    rfl

/-- A declaration lacks its semicolon somewhere exactly if the scan finds one. -/
theorem lacksSemicolon_iff {s : Text} :
    lacksSemicolon s = true ↔
      ∃ pre decl more, s = pre ++ decl ++ more ∧ IsDeclaration decl ∧
        endsDeclaration more = true := by
  rw [lacksSemicolon, Pattern.occursIn_eq_true_iff]
  constructor
  · rintro ⟨pre, c, rest, taken, rfl, htaken⟩
    obtain ⟨more, hsplit, hdecl, _, hends, _⟩ := unterminated_eq_some htaken
    exact ⟨pre, taken.value, more, by rw [hsplit, List.append_assoc], hdecl, hends⟩
  · rintro ⟨pre, decl, more, rfl, hdecl, hends⟩
    cases decl with
    | nil => exact absurd rfl hdecl.ne_nil
    | cons c tail =>
      have hsome : (unterminated pre.getLast? c (tail ++ more)).isSome = true :=
        unterminated_isSome (List.cons_append ..).symm hdecl hends
      obtain ⟨taken, htaken⟩ := Option.isSome_iff_exists.mp hsome
      exact ⟨pre, c, tail ++ more, taken, by simp, htaken⟩

/-- Whether some declaration runs on into the next one: only blanks are between its value and
another property. -/
def RunsOn (s : Text) : Prop :=
  ∃ pre decl more, s = pre ++ decl ++ more ∧ IsDeclaration decl ∧ nextProperty more = true

theorem not_runsOn_of_not_lacksSemicolon {s : Text} (h : lacksSemicolon s = false) :
    ¬RunsOn s := by
  rintro ⟨pre, decl, more, hs, hdecl, hnext⟩
  have hends : endsDeclaration more = true := by rw [endsDeclaration_eq, hnext, Bool.true_or]
  rw [lacksSemicolon_iff.mpr ⟨pre, decl, more, hs, hdecl, hends⟩] at h
  cases h

theorem RunsOn.append {s : Text} (h : RunsOn s) (front : Text) : RunsOn (front ++ s) := by
  obtain ⟨pre, decl, more, rfl, hdecl, hnext⟩ := h
  exact ⟨front ++ pre, decl, more, by simp, hdecl, hnext⟩

/-- The longest value that ends before a closing brace ends directly before it. -/
theorem exists_closing {more : Text} (hnext : nextProperty more = false)
    (hends : endsDeclaration more = true) (hnone : openValue? more = none) :
    ∃ rest, more = .char '}' :: rest := by
  rw [endsDeclaration_eq, hnext, Bool.false_or] at hends
  obtain ⟨gap, rest, rfl, hgap⟩ := closes_iff.mp hends
  cases gap with
  | nil => exact ⟨rest, rfl⟩
  | cons b gap =>
    -- the value would take the gap too
    have hmore : endsDeclaration (.char '}' :: rest) = true := by
      rw [endsDeclaration_eq, closes_cons, Bool.or_true]
    have := openValue?_isSome (List.cons_ne_nil b gap) (isRun_of_isBlank hgap) hmore
    rw [hnone] at this
    cases this

/-- Where no declaration runs on, the unterminated ones end directly before a closing brace. -/
theorem head?_of_unterminated {pre : Text} {c : CodePoint} {rest : Text} {taken : Taken Text}
    (hruns : ¬RunsOn (pre ++ c :: rest)) {before : Option CodePoint}
    (h : unterminated before c rest = some taken) :
    (rest.drop taken.more).head? = some (.char '}') := by
  obtain ⟨more, hsplit, hdecl, hlen, hends, hnone⟩ := unterminated_eq_some h
  have hnext : nextProperty more = false := by
    rw [← Bool.not_eq_true]
    intro hnext
    exact hruns ⟨pre, taken.value, more, by rw [hsplit, List.append_assoc], hdecl, hnext⟩
  obtain ⟨behind, rfl⟩ := exists_closing hnext hends hnone
  rw [drop_unterminated hsplit hlen]
  rfl

/-! ## From run to run -/

/-- A run at the start of a text ends before the next delimiter. -/
theorem exists_of_run_append_eq {run value s rest : Text} (hrun : IsRun run)
    (hrest : ∀ d ∈ rest.head?, isDelimiter d = true) (h : s ++ rest = run ++ value) :
    ∃ t, s = run ++ t ∧ value = t ++ rest := by
  rcases List.append_eq_append_iff.mp h with ⟨t, rfl, ht⟩ | ⟨t, rfl, ht⟩
  · cases t with
    | nil => exact ⟨[], by simp, by simpa using ht.symm⟩
    | cons d t =>
      have hd := hrest d (by simp [ht])
      rw [hrun d (by simp)] at hd
      cases hd
  · exact ⟨t, rfl, ht⟩

/-- Two continuations that open values cannot tell apart lead to the same match. -/
theorem unterminated_congr {rest rest' : Text} (hrest : ∀ d ∈ rest.head?, isDelimiter d = true)
    (h : ∀ s, openValue? (s ++ rest) = openValue? (s ++ rest')) {before : Option CodePoint}
    {c : CodePoint} {s : Text} {taken : Taken Text}
    (htaken : unterminated before c (s ++ rest) = some taken) :
    unterminated before c (s ++ rest') = some taken := by
  obtain ⟨tail, gap, value, hs, hchars, hgap⟩ := exists_name_of_unterminated htaken
  have hhead : IsRun (tail ++ (gap ++ [CodePoint.char ':'])) := by
    refine isRun_append.mpr ⟨fun x hx => ?_, isRun_append.mpr ⟨fun x hx => ?_, ?_⟩⟩
    · exact not_isDelimiter_of_isNameChar (hchars x (by simp [hx]))
    · exact not_isDelimiter_of_isBlank (Text.isBlank_iff.mp hgap x hx)
    · exact isRun_cons.mpr ⟨by decide, isRun_nil⟩
  have hs' : s ++ rest = tail ++ (gap ++ [CodePoint.char ':']) ++ value := hs.trans (by simp)
  obtain ⟨t, rfl, rfl⟩ := exists_of_run_append_eq hhead hrest hs'
  have hassoc : ∀ e : Text, tail ++ (gap ++ [CodePoint.char ':']) ++ t ++ e =
      tail ++ (gap ++ .char ':' :: (t ++ e)) := by simp
  rw [hassoc, unterminated_at_name hchars hgap] at htaken
  rw [hassoc, unterminated_at_name hchars hgap, ← h t]
  obtain ⟨n, hn, rfl⟩ := Option.map_eq_some_iff.mp htaken
  obtain ⟨v, more, hsplit, rfl, _, hrun, _, _⟩ := openValue?_eq_some hn
  obtain ⟨u, rfl, _⟩ := exists_of_run_append_eq hrun hrest hsplit
  rw [hn]
  simp

theorem unterminated_append_delimiter {d : CodePoint} (hd : isDelimiter d = true)
    (before : Option CodePoint) (c : CodePoint) (s rest : Text) :
    unterminated before c (s ++ d :: rest) = unterminated before c (s ++ [d]) := by
  refine Option.ext fun taken => ⟨fun h => ?_, fun h => ?_⟩
  · exact unterminated_congr (by simpa using hd) (openValue?_append_delimiter hd · rest) h
  · exact unterminated_congr (by simpa using hd)
      (fun t => (openValue?_append_delimiter hd t rest).symm) h

/-- No unterminated declaration reaches beyond its run, and of the delimiter behind the run only its
kind is seen. -/
theorem unterminated_halts : Pattern.Halts unterminated isDelimiter where
  silent before d rest hd := by simp [unterminated, not_isNameChar_of_isDelimiter hd]
  blind before c s d rest hd := unterminated_append_delimiter hd before c s rest
  ends before c s d taken hd h := by
    obtain ⟨more, hsplit, hdecl, hlen, _, _⟩ := unterminated_eq_some h
    have hmore : more ≠ [] := by
      rintro rfl
      have hmem : d ∈ taken.value := by
        rw [List.append_nil] at hsplit
        rw [← hsplit]
        simp
      rw [hdecl.isRun d hmem] at hd
      cases hd
    have := List.length_pos_iff.mpr hmore
    have := congrArg List.length hsplit
    simp only [List.length_cons, List.length_append, List.length_nil] at this
    omega
  fresh _ _ _ _ := rfl

theorem unterminated_ignoresGaps : Pattern.IgnoresGaps unterminated where
  silent before b rest hb := by simp [unterminated, not_isNameChar_of_isBlank hb]
  fresh _ _ _ _ := rfl

theorem unterminated_unseen {d : CodePoint} (hd : isDelimiter d = true) (hne : d ≠ .char '}')
    (before : Option CodePoint) (c : CodePoint) (s : Text) :
    unterminated before c (s ++ [d]) = unterminated before c s := by
  have hconcat : ∀ t, openValue? (t ++ [d]) = openValue? (t ++ []) := fun t => by
    rw [openValue?_concat hd hne, List.append_nil]
  refine Option.ext fun taken => ⟨fun h => ?_, fun h => ?_⟩
  · have := unterminated_congr (by simpa using hd) hconcat h
    rwa [List.append_nil] at this
  · rw [← List.append_nil s] at h
    exact unterminated_congr (by simp) (fun t => (hconcat t).symm) h

/-! ## The semicolon pass -/

/-- Induction along the semicolon pass. -/
theorem insertSemicolons_relates {R : Text → Text → Prop} (nil : R [] [])
    (plain : ∀ c {s o}, R s o → R (c :: s) (c :: o))
    (ended : ∀ decl {more o}, IsDeclaration decl → endsDeclaration more = true → R more o →
      R (decl ++ more) (decl ++ .char ';' :: o)) (s : Text) : R s (insertSemicolons s) := by
  refine Pattern.replace_relates nil plain ?_ s
  intro before c rest taken o htaken h
  obtain ⟨more, hsplit, hdecl, hlen, hends, -⟩ := unterminated_eq_some htaken
  rw [drop_unterminated hsplit hlen] at h
  rw [hsplit, List.append_assoc]
  exact ended taken.value hdecl hends h

/-- A text that lacks a semicolon is kept up to its first unterminated declaration. -/
theorem exists_first_unterminated {s : Text} (h : lacksSemicolon s = true) :
    ∃ pre decl more, s = pre ++ decl ++ more ∧ IsDeclaration decl ∧
      endsDeclaration more = true ∧ openValue? more = none ∧
      insertSemicolons s = pre ++ decl ++ .char ';' :: insertSemicolons more := by
  obtain ⟨pre, c, rest, taken, hs, htaken, hreplace⟩ :=
    Pattern.exists_first_match h fun declaration => declaration ++ [.char ';']
  obtain ⟨more, hsplit, hdecl, hlen, hends, hnone⟩ := unterminated_eq_some htaken
  refine ⟨pre, taken.value, more, by rw [hs, hsplit, List.append_assoc], hdecl, hends, hnone, ?_⟩
  rw [Pattern.piecesFrom_drop, drop_unterminated hsplit hlen,
    Pattern.piecesFrom_before fun _ _ _ => rfl] at hreplace
  calc insertSemicolons s
      = pre ++ (taken.value ++ [CodePoint.char ';'] ++ insertSemicolons more) := hreplace
    _ = pre ++ taken.value ++ .char ';' :: insertSemicolons more := by simp

theorem length_insertSemicolons (s : Text) : s.length ≤ (insertSemicolons s).length := by
  refine insertSemicolons_relates (R := fun s o => s.length ≤ o.length) (Nat.le_refl 0) ?_ ?_ s
  · intro c s o h
    exact Nat.succ_le_succ h
  · intro decl more o _ _ h
    simp only [List.length_append, List.length_cons]
    omega

theorem length_lt_insertSemicolons {s : Text} (h : lacksSemicolon s = true) :
    s.length < (insertSemicolons s).length := by
  obtain ⟨pre, decl, more, rfl, -, -, -, hfirst⟩ := exists_first_unterminated h
  have := length_insertSemicolons more
  rw [hfirst]
  simp only [List.length_append, List.length_cons]
  omega

/-- The pass keeps a text exactly if no semicolon is lacking. -/
theorem insertSemicolons_eq_self_iff {s : Text} :
    insertSemicolons s = s ↔ lacksSemicolon s = false := by
  constructor
  · intro h
    rw [← Bool.not_eq_true]
    intro hlacks
    have hlen := length_lt_insertSemicolons hlacks
    rw [h] at hlen
    exact Nat.lt_irrefl _ hlen
  · exact Pattern.replace_of_not_occursIn

/-- The pass writes no characters but those of the text and semicolons. -/
theorem mem_insertSemicolons {s : Text} {c : CodePoint} (h : c ∈ insertSemicolons s) :
    c ∈ s ∨ c = .char ';' := by
  revert h
  refine insertSemicolons_relates (R := fun s o => c ∈ o → c ∈ s ∨ c = .char ';') ?_ ?_ ?_ s
  · exact Or.inl
  · intro x s o ih h
    rcases List.mem_cons.mp h with rfl | h
    · exact Or.inl (by simp)
    · exact (ih h).imp_left (List.mem_cons_of_mem x)
  · intro decl more o _ _ ih h
    rcases List.mem_append.mp h with h | h
    · exact Or.inl (List.mem_append_left more h)
    · rcases List.mem_cons.mp h with h | h
      · exact Or.inr h
      · exact (ih h).imp_left (List.mem_append_right decl)

/-! ## The semicolon pass from run to run -/

theorem insertSemicolons_append {d : CodePoint} (hd : isDelimiter d = true) (s rest : Text) :
    insertSemicolons (s ++ d :: rest) = insertSemicolons (s ++ [d]) ++ insertSemicolons rest :=
  unterminated_halts.replace_append hd s rest

theorem insertSemicolons_append_of_ne {d : CodePoint} (hd : isDelimiter d = true)
    (hne : d ≠ .char '}') (s rest : Text) :
    insertSemicolons (s ++ d :: rest) = insertSemicolons s ++ d :: insertSemicolons rest :=
  unterminated_halts.replace_append_of_unseen hd (unterminated_unseen hd hne) s rest

theorem lacksSemicolon_append {d : CodePoint} (hd : isDelimiter d = true) (s rest : Text) :
    lacksSemicolon (s ++ d :: rest) = (lacksSemicolon (s ++ [d]) || lacksSemicolon rest) :=
  unterminated_halts.occursIn_append hd s rest

/-- A part of a text that is a run ends before the delimiter at the end of the text. -/
theorem exists_of_concat_eq {run pre part more : Text} {d : CodePoint}
    (hd : isDelimiter d = true) (hpart : IsRun part) (hne : part ≠ [])
    (h : run ++ [d] = pre ++ part ++ more) :
    ∃ behind, run = pre ++ part ++ behind ∧ more = behind ++ [d] := by
  rcases List.append_eq_append_iff.mp h with ⟨t, hpre, ht⟩ | ⟨t, hrun, ht⟩
  · cases t with
    | nil => exact ⟨[], by simpa using hpre.symm, by simpa using ht.symm⟩
    | cons x t =>
      obtain ⟨rfl, hnil⟩ := List.cons.inj ht
      obtain ⟨rfl, -⟩ := List.append_eq_nil_iff.mp hnil.symm
      have hlast : part.getLast? = some d := by
        have := congrArg List.getLast? hpre
        rw [List.getLast?_append, List.getLast?_concat] at this
        cases hp : part.getLast? with
        | none => exact absurd (List.getLast?_eq_none_iff.mp hp) hne
        | some x => simpa [hp] using this
      rw [hpart d (List.mem_of_getLast? hlast)] at hd
      cases hd
  · exact ⟨t, hrun, ht⟩

/-- Where no value is open, no semicolon is lacking up to the next delimiter. -/
theorem not_lacksSemicolon_of_openValue? {run : Text} {d : CodePoint} (hrun : IsRun run)
    (hd : isDelimiter d = true) (h : openValue? (run ++ [d]) = none) :
    lacksSemicolon (run ++ [d]) = false := by
  rw [← Bool.not_eq_true, lacksSemicolon_iff]
  rintro ⟨pre, decl, more, hs, hdecl, hends⟩
  obtain ⟨behind, rfl, rfl⟩ := exists_of_concat_eq hd hdecl.isRun hdecl.ne_nil hs
  obtain ⟨hname, hchars, hgap, hvalue, hvrun⟩ := hdecl
  rename_i name gap value
  have hassoc : pre ++ (name ++ (gap ++ CodePoint.char ':' :: value)) ++ behind ++ [d] =
      (pre ++ (name ++ (gap ++ [CodePoint.char ':']))) ++ (value ++ (behind ++ [d])) := by simp
  have hfront : IsRun (pre ++ (name ++ (gap ++ [CodePoint.char ':']))) := by
    simp only [isRun_append, isRun_cons] at hrun ⊢
    exact ⟨hrun.1.1, hrun.1.2.1, hrun.1.2.2.1, hrun.1.2.2.2.1, isRun_nil⟩
  rw [hassoc] at h
  have := openValue?_isSome hvalue hvrun hends
  rw [openValue?_of_append hfront h] at this
  cases this

/-- The semicolon pass on one run with its delimiter: it adds nothing, or one semicolon behind a
declaration of the run, and then nothing is left to add. -/
theorem insertSemicolons_run {run : Text} {d : CodePoint} (hrun : IsRun run)
    (hd : isDelimiter d = true) :
    (lacksSemicolon (run ++ [d]) = false ∧ insertSemicolons (run ++ [d]) = run ++ [d]) ∨
    ∃ pre decl more, run = pre ++ decl ++ more ∧ IsDeclaration decl ∧
      endsDeclaration (more ++ [d]) = true ∧ openValue? (more ++ [d]) = none ∧
      insertSemicolons (run ++ [d]) = pre ++ decl ++ .char ';' :: (more ++ [d]) := by
  cases hlacks : lacksSemicolon (run ++ [d]) with
  | false => exact Or.inl ⟨rfl, insertSemicolons_eq_self_iff.mpr hlacks⟩
  | true =>
    obtain ⟨pre, decl, tail, hs, hdecl, hends, hnone, hfirst⟩ := exists_first_unterminated hlacks
    obtain ⟨more, rfl, rfl⟩ := exists_of_concat_eq hd hdecl.isRun hdecl.ne_nil hs
    have hrest : insertSemicolons (more ++ [d]) = more ++ [d] :=
      insertSemicolons_eq_self_iff.mpr
        (not_lacksSemicolon_of_openValue? (isRun_append.mp hrun).2 hd hnone)
    rw [hrest] at hfirst
    exact Or.inr ⟨pre, decl, more, rfl, hdecl, hends, hnone, hfirst⟩

theorem braceless_insertSemicolons {s : Text} (hs : Braceless s) :
    Braceless (insertSemicolons s) := by
  intro c hc
  rcases mem_insertSemicolons hc with h | rfl
  · exact hs c h
  · decide

/-- At a closing brace the pass may write something before it. -/
theorem insertSemicolons_closing {s : Text} (hs : Braceless s) (rest : Text) :
    ∃ t, Braceless t ∧
      insertSemicolons (s ++ .char '}' :: rest) = t ++ .char '}' :: insertSemicolons rest := by
  have hsemi : isBrace (.char ';') = false := by decide
  induction s using run_induction with
  | last run hrun =>
    rw [insertSemicolons_append (by decide)]
    rcases insertSemicolons_run hrun (d := .char '}') (by decide) with ⟨-, h⟩ | h
    · exact ⟨run, hs, by rw [h, List.append_assoc]; rfl⟩
    · obtain ⟨pre, decl, more, rfl, -, -, -, h⟩ := h
      obtain ⟨hfront, hmore⟩ := braceless_append.mp hs
      exact ⟨pre ++ decl ++ .char ';' :: more,
        braceless_append.mpr ⟨hfront, braceless_cons.mpr ⟨hsemi, hmore⟩⟩, by rw [h]; simp⟩
  | more run d tail hrun hd ih =>
    obtain ⟨hbefore, htail⟩ := braceless_append.mp hs
    obtain ⟨hbrace, hrest⟩ := braceless_cons.mp htail
    have hd' : d = .char ';' := by
      rw [isDelimiter, hbrace, Bool.or_false, beq_iff_eq] at hd
      exact hd
    subst hd'
    obtain ⟨t, ht, h⟩ := ih hrest
    refine ⟨insertSemicolons run ++ .char ';' :: t, ?_, ?_⟩
    · exact braceless_append.mpr
        ⟨braceless_insertSemicolons hbefore, braceless_cons.mpr ⟨hsemi, ht⟩⟩
    · rw [List.append_assoc, List.cons_append,
        insertSemicolons_append_of_ne (by decide) (by decide), h, List.append_assoc]
      rfl

/-- The pass leaves the braces alone. -/
theorem insertSemicolons_keepsBraces : KeepsBraces insertSemicolons where
  braceless _ hs := braceless_insertSemicolons hs
  opening s rest _ := insertSemicolons_append_of_ne (by decide) (by decide) s rest
  closing _ rest hs := insertSemicolons_closing hs rest

theorem balance_insertSemicolons (s : Text) : balance (insertSemicolons s) = balance s :=
  insertSemicolons_keepsBraces.balanceFrom_eq 0 false s

end TextTidy.Css
