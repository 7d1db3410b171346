import TextTidy.Proofs.Css.NameScan

/-!
# What the typo check reports and what the spelling pass replaces

Whatever the check reports is also replaced. The converse fails for a misspelt word that hyphens
join to a letter, a digit or an underscore in front of it, and for nothing else: the pass takes the
word for itself, and the check takes it for the end of a longer name.
-/

namespace TextTidy.Css

/-! ## Misspellings behind hyphens -/

/-- Whether a text ends in a misspelling that hyphens join to a letter, a digit or an underscore. -/
def EndsJoined (s : Text) : Prop :=
  ∃ front c hyphens entry, s = front ++ c :: (hyphens ++ Text.ofString entry.wrong) ∧
    isWordChar c = true ∧ hyphens ≠ [] ∧ (∀ x ∈ hyphens, x = .char '-') ∧ entry ∈ misspellings

/-- Whether such a misspelling stands before a colon somewhere in a text. -/
def JoinedMisspelling (s : Text) : Prop :=
  ∃ front behind, s = front ++ behind ∧ EndsJoined front ∧ colonFollows behind = true

theorem isWordChar_of_isNameChar {c : CodePoint} (h : isNameChar c = true) (hne : c ≠ .char '-') :
    isWordChar c = true := by
  cases c with
  | surrogate index => cases h
  | char ch =>
    have hletter : ch ≠ '-' := fun h => hne (by rw [h])
    simp only [isNameChar, isWordChar, Char.isAlphanum] at h ⊢
    simp_all

theorem exists_hyphens (s : Text) :
    ∃ front hyphens, s = front ++ hyphens ∧ (∀ x ∈ hyphens, x = .char '-') ∧
      front.getLast? ≠ some (.char '-') := by
  induction s with
  | nil => exact ⟨[], [], rfl, by simp, by simp⟩
  | cons c s ih =>
    obtain ⟨front, hyphens, rfl, hall, hlast⟩ := ih
    cases front with
    | nil =>
      by_cases hc : c = .char '-'
      · exact ⟨[], c :: hyphens, rfl, List.forall_mem_cons.mpr ⟨hc, hall⟩, by simp⟩
      · exact ⟨[c], hyphens, rfl, hall, by simpa using hc⟩
    | cons x front =>
      exact ⟨c :: x :: front, hyphens, rfl, hall, by rwa [List.getLast?_cons_cons]⟩

/-- A text that ends in a hyphen ends in hyphens, and what is before all of these does not. -/
theorem exists_hyphens_behind {s : Text} (h : s.getLast? = some (.char '-')) :
    ∃ front hyphens, s = front ++ hyphens ∧ hyphens ≠ [] ∧ (∀ x ∈ hyphens, x = .char '-') ∧
      front.getLast? ≠ some (.char '-') := by
  obtain ⟨front, hyphens, rfl, hall, hlast⟩ := exists_hyphens s
  refine ⟨front, hyphens, rfl, ?_, hall, hlast⟩
  rintro rfl
  rw [List.append_nil] at h
  exact hlast h

/-- A part of a name that does not end in a letter ends in a hyphen. -/
theorem getLast?_eq_hyphen {name : Text} (hne : name ≠ [])
    (hchars : ∀ y ∈ name, isNameChar y = true) (hlast : name.getLast?.any isWordChar = false) :
    name.getLast? = some (.char '-') := by
  cases hz : name.getLast? with
  | none => exact absurd (List.getLast?_eq_none_iff.mp hz) hne
  | some z =>
    rw [hz, Option.any_some] at hlast
    by_contra hz'
    have hword := isWordChar_of_isNameChar (hchars z (List.mem_of_getLast? hz))
      fun h => hz' (by rw [h])
    rw [hword] at hlast
    cases hlast

/-- A misspelling ends a name exactly if the name is made of it and a part before it that does not
end in a letter. -/
theorem misspeltEnd_isSome_iff {before : Option CodePoint} {name : Text} :
    (misspeltEnd before name).isSome = true ↔
      ∃ front entry, entry ∈ misspellings ∧ name = front ++ Text.ofString entry.wrong ∧
        (front.getLast?.or before).any isWordChar = false := by
  induction name generalizing before with
  | nil =>
    constructor
    · intro h
      cases h
    · rintro ⟨front, entry, hmem, hname, -⟩
      obtain ⟨hpos, hlen, -⟩ := misspellings_length entry hmem
      have := congrArg List.length hname
      simp only [List.length_nil, List.length_append] at this
      omega
  | cons x name ih =>
    have hstep : (misspeltEnd before (x :: name)).isSome = true ↔
        (atWordEdge before x = true ∧ (misspelling? (x :: name)).isSome = true) ∨
          (misspeltEnd (some x) name).isSome = true := by
      rw [misspeltEnd]
      split <;> simp [*, Option.isSome_or]
    rw [hstep, ih]
    constructor
    · rintro (⟨hedge, hsome⟩ | ⟨front, entry, hmem, rfl, hlast⟩)
      · obtain ⟨entry, hentry⟩ := Option.isSome_iff_exists.mp hsome
        obtain ⟨hmem, hwrong⟩ := misspelling?_eq_some hentry
        have hx : isWordChar x = true :=
          (misspellings_isWordChar entry hmem).1 x (by rw [hwrong]; simp)
        exact ⟨[], entry, hmem, hwrong.symm, by simpa [atWordEdge, hx] using hedge⟩
      · refine ⟨x :: front, entry, hmem, rfl, ?_⟩
        rwa [Pattern.getLast?_cons_or]
    · rintro ⟨front, entry, hmem, hname, hlast⟩
      cases front with
      | nil =>
        have hx : isWordChar x = true := by
          rw [List.nil_append] at hname
          exact (misspellings_isWordChar entry hmem).1 x (by rw [← hname]; simp)
        refine Or.inl ⟨?_, ?_⟩
        · have hbefore : before.any isWordChar = false := hlast
          rw [atWordEdge, hbefore, hx]
          rfl
        · rw [hname, List.nil_append, misspelling?_wrong entry hmem]
          rfl
      | cons y front =>
        obtain ⟨rfl, rfl⟩ := List.cons.inj hname
        rw [Pattern.getLast?_cons_or] at hlast
        exact Or.inr ⟨front, entry, hmem, rfl, hlast⟩

theorem EndsJoined.append {s : Text} (h : EndsJoined s) (front : Text) :
    EndsJoined (front ++ s) := by
  obtain ⟨front', c, hyphens, entry, rfl, hc, hne, hall, hmem⟩ := h
  exact ⟨front ++ front', c, hyphens, entry, by simp, hc, hne, hall, hmem⟩

/-- A misspelling that hyphens join to a character stands behind a hyphen. -/
theorem EndsJoined.exists_hyphen {before : Option CodePoint} {name : Text}
    (h : EndsJoined (before.toList ++ name)) :
    ∃ front entry, entry ∈ misspellings ∧ name = front ++ Text.ofString entry.wrong ∧
      front.getLast? = some (.char '-') := by
  obtain ⟨front, c, hyphens, entry, hsplit, -, hne, hall, hmem⟩ := h
  have hlast : hyphens.getLast? = some (.char '-') := by
    cases hx : hyphens.getLast? with
    | none => exact absurd (List.getLast?_eq_none_iff.mp hx) hne
    | some x => rw [hall x (List.mem_of_getLast? hx)]
  have hlast' : ∀ front, (front ++ c :: hyphens).getLast? = some (.char '-') := by
    intro front
    rw [List.getLast?_append, List.getLast?_cons, hlast]
    rfl
  cases before with
  | none => exact ⟨front ++ c :: hyphens, entry, hmem, by simpa using hsplit, hlast' front⟩
  | some b =>
    cases front with
    | nil => exact ⟨hyphens, entry, hmem, (List.cons.inj hsplit).2, hlast⟩
    | cons x front =>
      refine ⟨front ++ c :: hyphens, entry, hmem, ?_, hlast' front⟩
      have := (List.cons.inj hsplit).2
      simpa using this

/-- The part of a name before a word ends in hyphens, and what is before these is a letter, a digit
or an underscore if a word begins or ends where the name does. -/
theorem exists_joined_hyphens {before : Option CodePoint} {x : CodePoint} {front : Text}
    (hchars : ∀ y ∈ x :: front, isNameChar y = true)
    (hlast : (x :: front).getLast?.any isWordChar = false)
    (hedge : atWordEdge before x = true) :
    ∃ init c hyphens, before.toList ++ x :: front = init ++ c :: hyphens ∧
      isWordChar c = true ∧ hyphens ≠ [] ∧ ∀ y ∈ hyphens, y = .char '-' := by
  have hhyphen := getLast?_eq_hyphen (List.cons_ne_nil x front) hchars hlast
  have hend : (before.toList ++ x :: front).getLast? = some (.char '-') := by
    rw [List.getLast?_append, hhyphen]
    rfl
  obtain ⟨init, hyphens, hsplit, hne, hall, hstop⟩ := exists_hyphens_behind hend
  have hx : x ∈ hyphens → before.any isWordChar = true := by
    intro hmem
    rw [hall x hmem] at hedge
    simpa [atWordEdge, show isWordChar (.char '-') = false by decide] using hedge
  cases hc : init.getLast? with
  | none =>
    -- the character before the name would be a hyphen too
    obtain rfl := List.getLast?_eq_none_iff.mp hc
    rw [List.nil_append] at hsplit
    have hword := hx (by rw [← hsplit]; simp)
    cases before with
    | none => cases hword
    | some b =>
      rw [hall b (by rw [← hsplit]; simp)] at hword
      exact absurd hword (by decide)
  | some c =>
    obtain ⟨init, rfl⟩ := List.getLast?_eq_some_iff.mp hc
    refine ⟨init, c, hyphens, by rw [hsplit]; simp, ?_, hne, hall⟩
    have hname : ∀ init, x :: front = init ++ c :: hyphens → isWordChar c = true := by
      intro init h
      have hmem : c ∈ x :: front := by
        rw [h]
        simp
      exact isWordChar_of_isNameChar (hchars c hmem) fun hc' => hstop (by rw [hc, hc'])
    rw [List.append_assoc, List.singleton_append] at hsplit
    cases before with
    | none => exact hname init hsplit
    | some b =>
      cases init with
      | nil =>
        obtain ⟨rfl, hfront⟩ := List.cons.inj hsplit
        have hmem : x ∈ hyphens := by
          rw [← hfront]
          simp
        exact hx hmem
      | cons y init => exact hname init (List.cons.inj hsplit).2

/-- Where no word begins or ends, the character before a name makes no difference: a hyphen behind
it would be an edge. -/
theorem endsJoined_of_not_edge {before : Option CodePoint} {x : CodePoint} {name : Text}
    (hedge : atWordEdge before x = false) :
    EndsJoined (x :: name) ↔ EndsJoined (before.toList ++ x :: name) := by
  refine ⟨fun h => h.append before.toList, fun h => ?_⟩
  obtain ⟨front, c, hyphens, entry, hsplit, hc, hne, hall, hmem⟩ := h
  cases before with
  | none => exact ⟨front, c, hyphens, entry, hsplit, hc, hne, hall, hmem⟩
  | some b =>
    cases front with
    | nil =>
      obtain ⟨rfl, htail⟩ := List.cons.inj hsplit
      obtain ⟨y, hyphens, rfl⟩ := List.exists_cons_of_ne_nil hne
      obtain ⟨rfl, -⟩ := List.cons.inj htail
      rw [hall x (by simp), atWordEdge, Option.any_some, hc] at hedge
      cases hedge
    | cons y front =>
      exact ⟨front, c, hyphens, entry, (List.cons.inj hsplit).2, hc, hne, hall, hmem⟩

/-- A name that is a misspelling as a whole ends in none that hyphens join, as it has no hyphen. -/
theorem not_endsJoined_of_misspelling? {before : Option CodePoint} {name : Text}
    {entry : Misspelling} (h : misspelling? name = some entry) :
    ¬EndsJoined (before.toList ++ name) := by
  intro hjoined
  obtain ⟨hmem, hwrong⟩ := misspelling?_eq_some h
  obtain ⟨front, entry', -, hname, hlast⟩ := hjoined.exists_hyphen
  have hhyphen : CodePoint.char '-' ∈ Text.ofString entry.wrong := by
    rw [hwrong, hname]
    exact List.mem_append_left _ (List.mem_of_getLast? hlast)
  exact absurd ((misspellings_isWordChar entry hmem).1 _ hhyphen) (by decide)

/-- Where a word begins or ends, a misspelling at the end of the rest of a name is a joined one. -/
theorem misspeltEnd_isSome_iff_endsJoined {before : Option CodePoint} {x : CodePoint} {name : Text}
    (hchars : ∀ y ∈ x :: name, isNameChar y = true) (hedge : atWordEdge before x = true) :
    (misspeltEnd (some x) name).isSome = true ↔ EndsJoined (before.toList ++ x :: name) := by
  rw [misspeltEnd_isSome_iff]
  constructor
  · rintro ⟨front, entry, hmem, rfl, hlast⟩
    have hfront : ∀ y ∈ x :: front, isNameChar y = true := fun y hy =>
      hchars y (List.mem_append_left (Text.ofString entry.wrong) hy)
    rw [← Pattern.getLast?_cons_or x front none, Option.or_none] at hlast
    obtain ⟨init, c, hyphens, hsplit, hc, hne, hall⟩ := exists_joined_hyphens hfront hlast hedge
    refine ⟨init, c, hyphens, entry, ?_, hc, hne, hall, hmem⟩
    rw [← List.cons_append, ← List.append_assoc, hsplit, List.append_assoc, List.cons_append]
  · intro h
    obtain ⟨front, entry, hmem, hname, hlast⟩ := h.exists_hyphen
    cases front with
    | nil => cases hlast
    | cons y front =>
      obtain ⟨rfl, rfl⟩ := List.cons.inj hname
      refine ⟨front, entry, hmem, rfl, ?_⟩
      rw [← Pattern.getLast?_cons_or x front none, Option.or_none, hlast]
      decide

theorem misspeltName_eq_misspeltEnd_iff {before : Option CodePoint} {name : Text}
    (hchars : ∀ x ∈ name, isNameChar x = true) :
    misspeltName before name = misspeltEnd before name ↔ ¬EndsJoined (before.toList ++ name) := by
  induction name generalizing before with
  | nil =>
    refine iff_of_true rfl fun h => ?_
    obtain ⟨front, entry, -, hname, hlast⟩ := h.exists_hyphen
    rw [(List.append_eq_nil_iff.mp hname.symm).1] at hlast
    cases hlast
  | cons x name ih =>
    cases hedge : atWordEdge before x with
    | false =>
      rw [misspeltName, misspeltEnd, hedge, if_neg Bool.false_ne_true, if_neg Bool.false_ne_true,
        ih (List.forall_mem_cons.mp hchars).2, ← endsJoined_of_not_edge hedge]
      rfl
    | true =>
      rw [misspeltName, misspeltEnd, hedge, if_pos rfl, if_pos rfl]
      cases hentry : misspelling? (x :: name) with
      | some entry => exact iff_of_true rfl (not_endsJoined_of_misspelling? hentry)
      | none =>
        rw [Option.none_or, eq_comm, ← Option.not_isSome_iff_eq_none, not_iff_not,
          misspeltEnd_isSome_iff_endsJoined hchars hedge]

/-- What is behind a part of a name with the character before it is an end of the name. -/
theorem exists_of_toList_append_eq {before : Option CodePoint} {name front behind : Text}
    (hne : front ≠ []) (h : before.toList ++ name = front ++ behind) :
    ∃ start, name = start ++ behind := by
  cases before with
  | none => exact ⟨front, h⟩
  | some b =>
    obtain ⟨x, front, rfl⟩ := List.exists_cons_of_ne_nil hne
    exact ⟨front, (List.cons.inj h).2⟩

/-- A joined misspelling ends the name before a character, or it stands behind that character. -/
theorem joinedMisspelling_name_iff {before : Option CodePoint} {name : Text}
    (hchars : ∀ x ∈ name, isNameChar x = true) {c : CodePoint} (hc : isNameChar c = false)
    (rest : Text) :
    JoinedMisspelling (before.toList ++ (name ++ c :: rest)) ↔
      (colonFollows (c :: rest) = true ∧ EndsJoined (before.toList ++ name)) ∨
        JoinedMisspelling (c :: rest) := by
  constructor
  · rintro ⟨_, behind, hsplit, ⟨front, d, hyphens, entry, rfl, hd, hne, hall, hmem⟩, hcolon⟩
    have hjoined : ∀ x ∈ hyphens ++ Text.ofString entry.wrong, isNameChar x = true := by
      intro x hx
      rcases List.mem_append.mp hx with hx | hx
      · rw [hall x hx]
        decide
      · exact (misspellings_isNameChar entry hmem).1 x hx
    have hcut : (before.toList ++ name) ++ c :: rest =
        (front ++ [d]) ++ ((hyphens ++ Text.ofString entry.wrong) ++ behind) := by
      simpa using hsplit
    rcases List.append_eq_append_iff.mp hcut with ⟨t, hfront, hrest⟩ | ⟨t, hname, hbehind⟩
    · rcases List.eq_nil_or_concat t with rfl | ⟨t, x, rfl⟩
      · obtain ⟨y, hyphens, rfl⟩ := List.exists_cons_of_ne_nil hne
        rw [(List.cons.inj hrest).1, hjoined y (by simp)] at hc
        cases hc
      · rw [List.concat_eq_append, ← List.append_assoc] at hfront
        obtain ⟨-, hx⟩ := List.append_inj' hfront rfl
        obtain rfl := (List.cons.inj hx).1
        refine Or.inr ⟨t ++ d :: (hyphens ++ Text.ofString entry.wrong), behind, ?_,
          ⟨t, d, hyphens, entry, rfl, hd, hne, hall, hmem⟩, hcolon⟩
        rw [hrest, List.concat_eq_append]
        simp
    · obtain ⟨start, hstart⟩ := exists_of_toList_append_eq (by simp) hname
      have ht : ∀ x ∈ t, isNameChar x = true := fun x hx =>
        hchars x (hstart ▸ List.mem_append_right start hx)
      obtain ⟨rfl, rfl⟩ := name_unique hjoined ht (not_isNameChar_of_colonFollows hcolon)
        (by simpa using hc) hbehind
      exact Or.inl ⟨hcolon, front, d, hyphens, entry, by simpa using hname, hd, hne, hall, hmem⟩
  · rintro (⟨hcolon, hends⟩ | ⟨front, behind, hsplit, hends, hcolon⟩)
    · exact ⟨before.toList ++ name, c :: rest, by simp, hends, hcolon⟩
    · exact ⟨before.toList ++ name ++ front, behind, by simp [hsplit], hends.append _, hcolon⟩

theorem not_joinedMisspelling_name {before : Option CodePoint} {name : Text}
    (hchars : ∀ x ∈ name, isNameChar x = true) :
    ¬JoinedMisspelling (before.toList ++ name) := by
  rintro ⟨front, behind, hsplit, ⟨init, c, hyphens, entry, rfl, -⟩, hcolon⟩
  obtain ⟨start, rfl⟩ := exists_of_toList_append_eq (by simp) hsplit
  obtain ⟨gap, rest, rfl, -⟩ := colonFollows_iff.mp hcolon
  exact absurd (hchars (.char ':') (by simp)) (by decide)

/-! ## The check and the pass -/

theorem misspeltEnd_of_misspeltName {before : Option CodePoint} {name : Text} {entry : Misspelling}
    (h : misspeltName before name = some entry) : misspeltEnd before name = some entry := by
  induction name generalizing before with
  | nil => cases h
  | cons c name ih =>
    rw [misspeltName] at h
    rw [misspeltEnd]
    split at h
    · rename_i hedge
      rw [if_pos hedge, h, Option.some_or]
    · rename_i hedge
      rw [if_neg hedge, ih h]

theorem misspeltName_sublist (before : Option CodePoint) (name : Text) :
    (misspeltName before name).toList.Sublist (misspeltEnd before name).toList := by
  cases hname : misspeltName before name with
  | none => exact List.nil_sublist _
  | some entry =>
    exact (misspeltEnd_of_misspeltName hname).symm ▸ List.Sublist.refl _

theorem append_eq_append_iff_of_sublist {α : Type} {a b c d : List α} (hab : a.Sublist b)
    (hcd : c.Sublist d) : a ++ c = b ++ d ↔ a = b ∧ c = d := by
  constructor
  · intro h
    have hlen := congrArg List.length h
    have hle := hab.length_le
    have hle' := hcd.length_le
    simp only [List.length_append] at hlen
    exact ⟨hab.eq_of_length (by omega), hcd.eq_of_length (by omega)⟩
  · rintro ⟨rfl, rfl⟩
    rfl

/-- Behind any character, what the check finds is among what the pass finds, and it is all of that
exactly if no misspelling is joined. -/
theorem typosBehind_respelledBehind (before : Option CodePoint) (s : Text) :
    (typosBehind before s).Sublist (respelledBehind before s) ∧
      (typosBehind before s = respelledBehind before s ↔
        ¬JoinedMisspelling (before.toList ++ s)) := by
  induction s using Text.span_induction isNameChar generalizing before with
  | last name hchars =>
    obtain ⟨htypos, hwords, -⟩ := finds_last hchars before
    rw [htypos, hwords]
    exact ⟨List.Sublist.refl [], iff_of_true rfl (not_joinedMisspelling_name hchars)⟩
  | more name c rest hchars hc ih =>
    obtain ⟨hsub, heq⟩ := ih (some c)
    rw [typosBehind_name hchars before hc, respelledBehind_name hchars before hc,
      joinedMisspelling_name_iff hchars hc]
    cases hcolon : colonFollows (c :: rest) with
    | false => simpa [hcolon] using ⟨hsub, heq⟩
    | true =>
      have hname := misspeltName_sublist before name
      have hsame : (misspeltName before name).toList = (misspeltEnd before name).toList ↔
          ¬EndsJoined (before.toList ++ name) := by
        rw [← misspeltName_eq_misspeltEnd_iff hchars]
        cases misspeltName before name <;> cases misspeltEnd before name <;> simp
      rw [if_pos rfl, if_pos rfl, append_eq_append_iff_of_sublist hname hsub, hsame, heq]
      exact ⟨hname.append hsub, by simp⟩

/-- Every misspelling that the check reports is respelt, in the same order. These are all that are
respelt exactly if no misspelling is joined by hyphens to a letter, a digit or an underscore. -/
theorem typos_eq_respelled_iff (s : Text) :
    (typos s).Sublist (respelled s) ∧ (typos s = respelled s ↔ ¬JoinedMisspelling s) :=
  typosBehind_respelledBehind none s

/-- The end of a longer name is respelt although the name is no misspelling, and the check does not
report it. -/
theorem joined_misspelling_respelled_unreported :
    typos (Text.ofString "a\x7bx-colr:b;\x7d") = [] ∧
      respelled (Text.ofString "a\x7bx-colr:b;\x7d") = [⟨"colr", "color"⟩] ∧
      ¬∀ s, typos s = respelled s := by
  have htypos : typos (Text.ofString "a\x7bx-colr:b;\x7d") = [] := by decide
  have hwords : respelled (Text.ofString "a\x7bx-colr:b;\x7d") = [⟨"colr", "color"⟩] := by decide
  refine ⟨htypos, hwords, fun h => ?_⟩
  have hsame := h (Text.ofString "a\x7bx-colr:b;\x7d")
  rw [htypos, hwords] at hsame
  cases hsame

end TextTidy.Css
