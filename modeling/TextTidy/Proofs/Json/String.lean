import TextTidy.Proofs.Json.Grammar

/-!
# Reading strings

The reader takes a string element by element. An element is one character of the grammar, or two
numeric escapes that belong together.
-/

namespace TextTidy.Json

open Grammar

/-! ## Hexadecimal digits -/

theorem hexDigit?_lt {c : Char} {n : Nat} (h : Text.hexDigit? c = some n) : n < 16 := by
  unfold Text.hexDigit? at h
  split at h
  · rename_i hc
    cases h
    have hle : c.toNat ≤ '9'.toNat := hc.2
    show c.toNat - 48 < 16
    have : '9'.toNat = 57 := rfl
    omega
  · split at h
    · rename_i hc
      cases h
      have hle : c.toNat ≤ 'f'.toNat := hc.2
      show c.toNat - 97 + 10 < 16
      have : 'f'.toNat = 102 := rfl
      omega
    · split at h
      · rename_i hc
        cases h
        have hle : c.toNat ≤ 'F'.toNat := hc.2
        show c.toNat - 65 + 10 < 16
        have : 'F'.toNat = 70 := rfl
        omega
      · cases h

theorem Grammar.HexDigit.ne_char (d : HexDigit) {c : Char} (hc : Text.hexDigit? c = none) :
    CodePoint.char d.char ≠ .char c := by
  intro h
  have := d.spells
  rw [CodePoint.char.inj h, hc] at this
  cases this

theorem exists_hexDigit_of_mem {d : HexDigits} {c : CodePoint} (hc : c ∈ d.text) :
    ∃ x : HexDigit, c = .char x.char := by
  simp only [HexDigits.text, List.mem_cons, List.not_mem_nil, or_false] at hc
  rcases hc with rfl | rfl | rfl | rfl <;> exact ⟨_, rfl⟩

theorem Grammar.HexDigits.value_lt (d : HexDigits) : d.value < 0x10000 := by
  have h1 := hexDigit?_lt d.first.spells
  have h2 := hexDigit?_lt d.second.spells
  have h3 := hexDigit?_lt d.third.spells
  have h4 := hexDigit?_lt d.fourth.spells
  unfold HexDigits.value
  omega

theorem ofNat?_value (d : HexDigits) : CodePoint.ofNat? d.value = some d.point := by
  have hlt := d.value_lt
  unfold CodePoint.ofNat? HexDigits.point
  split
  · rfl
  · rw [if_pos (by omega)]

theorem fourDigits?_digits (d : HexDigits) (c : CodePoint) (rest : Text) :
    fourDigits? (d.text ++ c :: rest) = some d.point := by
  show fourDigits? (.char d.first.char :: .char d.second.char :: .char d.third.char ::
    .char d.fourth.char :: c :: rest) = some d.point
  simp only [fourDigits?, hexDigit?, d.first.spells, d.second.spells, d.third.spells,
    d.fourth.spells, Option.bind_eq_bind, Option.bind_some]
  exact ofNat?_value d

theorem exists_hexDigit {c : CodePoint} {n : Nat} (h : hexDigit? c = some n) :
    ∃ d : HexDigit, c = .char d.char ∧ d.value = n := by
  cases c with
  | surrogate index => cases h
  | char c => exact ⟨⟨c, n, h⟩, rfl, rfl⟩

theorem exists_hexDigits {s : Text} {p : CodePoint} (h : fourDigits? s = some p) :
    ∃ d : HexDigits, s = d.text ++ s.drop 4 ∧ p = d.point := by
  unfold fourDigits? at h
  split at h
  · rename_i a b c d e rest
    simp only [Option.bind_eq_bind, Option.bind_eq_some_iff] at h
    obtain ⟨v1, h1, v2, h2, v3, h3, v4, h4, hp⟩ := h
    obtain ⟨d1, rfl, rfl⟩ := exists_hexDigit h1
    obtain ⟨d2, rfl, rfl⟩ := exists_hexDigit h2
    obtain ⟨d3, rfl, rfl⟩ := exists_hexDigit h3
    obtain ⟨d4, rfl, rfl⟩ := exists_hexDigit h4
    exact ⟨⟨d1, d2, d3, d4⟩, rfl, Option.some.inj (hp.symm.trans (ofNat?_value ⟨d1, d2, d3, d4⟩))⟩
  · cases h

/-! ## Elements -/

variable {opening : Text}

theorem charactersFrom_drop (skip : Nat) (s : Text) :
    charactersFrom opening skip s = charactersFrom opening 0 (s.drop skip) := by
  induction s generalizing skip with
  | nil => cases skip <;> rfl
  | cons c s ih =>
    cases skip with
    | zero => rfl
    | succ skip => exact ih skip

theorem element_plain {c : CodePoint} (visible : 0x20 ≤ c.value) (noQuote : c ≠ .char '"')
    (noBackslash : c ≠ .char '\\') (rest : Text) :
    element opening c rest = .ok (.point c 0) := by
  unfold element
  split
  · exact absurd rfl noQuote
  · exact absurd rfl noBackslash
  · rw [if_neg (by omega)]

theorem element_control {c : CodePoint} (hc : c.value < 0x20) (rest : Text) :
    element opening c rest = .error (.malformed .controlCharacter (c :: rest)) := by
  unfold element
  split
  · exact absurd hc (by decide)
  · exact absurd hc (by decide)
  · rw [if_pos hc]

theorem element_escape {c : CodePoint} (hc : c ≠ .char 'u') (rest : Text) :
    element opening (.char '\\') (c :: rest) =
      match letterEscape? c with
      | some meaning => .ok (.point (.char meaning) 1)
      | none => .error (.malformed .unknownEscape (.char '\\' :: c :: rest)) := by
  cases hmeaning : letterEscape? c <;> simp [element, hmeaning]

theorem element_letter {name meaning : Char} (known : (name, meaning) ∈ escapes) (rest : Text) :
    element opening (.char '\\') (.char name :: rest) = .ok (.point (.char meaning) 1) := by
  simp only [escapes, List.mem_cons, List.not_mem_nil, or_false, Prod.mk.injEq] at known
  rcases known with ⟨rfl, rfl⟩ | ⟨rfl, rfl⟩ | ⟨rfl, rfl⟩ | ⟨rfl, rfl⟩ | ⟨rfl, rfl⟩ | ⟨rfl, rfl⟩ |
    ⟨rfl, rfl⟩ | ⟨rfl, rfl⟩ <;> rfl

theorem element_numeric {digits : Text} {p : CodePoint} {used : Nat}
    (h : numericEscape? digits = some (p, used)) :
    element opening (.char '\\') (.char 'u' :: digits) = .ok (.point p (used + 1)) := by
  simp [element, h]

theorem exists_letter {c : CodePoint} {meaning : Char} (h : letterEscape? c = some meaning) :
    ∃ name, c = .char name ∧ (name, meaning) ∈ escapes := by
  unfold letterEscape? at h
  split at h
  case h_9 => cases h
  all_goals
    cases h
    exact ⟨_, rfl, by decide⟩

/-- What a numeric escape takes is its digits, and perhaps another escape. -/
theorem exists_numeric {digits : Text} {p : CodePoint} {used : Nat}
    (h : numericEscape? digits = some (p, used)) :
    ∃ cs, .char '\\' :: .char 'u' :: digits = charactersText cs ++ digits.drop used := by
  simp only [numericEscape?, Option.bind_eq_bind, Option.bind_eq_some_iff] at h
  obtain ⟨first, hfirst, h⟩ := h
  obtain ⟨high, hhigh, rfl⟩ := exists_hexDigits hfirst
  have halone : .char '\\' :: .char 'u' :: digits =
      charactersText [.numeric high] ++ digits.drop 4 := by
    show _ = .char '\\' :: .char 'u' :: high.text ++ [] ++ digits.drop 4
    rw [List.append_nil, List.cons_append, List.cons_append, ← hhigh]
  split at h
  · rename_i more hmore
    split at h
    · rename_i joined hjoined
      cases h
      obtain ⟨second, hsecond, -⟩ := Option.bind_eq_some_iff.mp hjoined
      obtain ⟨low, hlow, -⟩ := exists_hexDigits hsecond
      refine ⟨[.numeric high, .numeric low], ?_⟩
      have hdrop : digits.drop 10 = more.drop 4 := by
        have := congrArg (List.drop 6) hmore
        rwa [List.drop_drop] at this
      calc CodePoint.char '\\' :: .char 'u' :: digits
          = charactersText [.numeric high] ++ .char '\\' :: .char 'u' :: more := by
            rw [halone, hmore]
        _ = charactersText [.numeric high] ++ (charactersText [.numeric low] ++ more.drop 4) := by
            rw [congrArg (fun s => CodePoint.char '\\' :: .char 'u' :: s) hlow]
            simp [charactersText, Character.text]
        _ = charactersText [.numeric high, .numeric low] ++ digits.drop 10 := by
            rw [hdrop]
            simp [charactersText]
    · cases h
      exact ⟨_, halone⟩
  · cases h
    exact ⟨_, halone⟩

/-- What the reader takes for an element is made of characters of the grammar. -/
theorem exists_element {c p : CodePoint} {rest : Text} {more : Nat}
    (h : element opening c rest = .ok (.point p more)) :
    ∃ cs, c :: rest = charactersText cs ++ rest.drop more := by
  unfold element at h
  split at h
  · cases h
  · split at h
    · cases h
    · split at h
      · rename_i hescape
        cases h
        exact exists_numeric hescape
      · cases h
    · split at h
      · rename_i hletter
        cases h
        obtain ⟨name, rfl, hknown⟩ := exists_letter hletter
        exact ⟨[.letter name _ hknown], rfl⟩
      · cases h
  · rename_i hquote hbackslash
    split at h
    · cases h
    · rename_i hvisible
      cases h
      exact ⟨[.plain _ (by omega) hquote hbackslash], rfl⟩

theorem eq_quote_of_close {c : CodePoint} {rest : Text} (h : element opening c rest = .ok .close) :
    c = .char '"' := by
  unfold element at h
  split at h
  · rfl
  · split at h
    · cases h
    · split at h <;> cases h
    · split at h <;> cases h
  · split at h <;> cases h

/-! ## Strings -/

theorem charactersFrom_cons (c : CodePoint) (rest : Text) :
    charactersFrom opening 0 (c :: rest) = (element opening c rest).bind fun
      | .close => .ok ([], rest)
      | .point p more =>
        (charactersFrom opening 0 (rest.drop more)).map fun (s, left) => (p :: s, left) := by
  rw [charactersFrom]
  rcases element opening c rest with fault | (_ | ⟨p, more⟩)
  · rfl
  · rfl
  · simp only
    rw [charactersFrom_drop]
    show _ = (charactersFrom opening 0 (rest.drop more)).map _
    cases charactersFrom opening 0 (rest.drop more) <;> rfl

theorem charactersFrom_point {c p : CodePoint} {rest : Text} {more : Nat}
    (h : element opening c rest = .ok (.point p more)) :
    charactersFrom opening 0 (c :: rest) =
      (charactersFrom opening 0 (rest.drop more)).map fun (s, left) => (p :: s, left) := by
  rw [charactersFrom_cons, h]
  rfl

/-- A numeric escape stands alone when no other one follows that it belongs together with. -/
theorem numericEscape?_alone (d : HexDigits) {rest : Text} (hrest : rest ≠ [])
    (h : ∀ more, rest = .char '\\' :: .char 'u' :: more →
      (fourDigits? more).bind d.point.join? = none) :
    numericEscape? (d.text ++ rest) = some (d.point, 4) := by
  obtain ⟨c, behind, rfl⟩ := List.exists_cons_of_ne_nil hrest
  have hdrop : (d.text ++ c :: behind).drop 4 = c :: behind := rfl
  simp only [numericEscape?, fourDigits?_digits, hdrop, Option.bind_eq_bind, Option.bind_some]
  split
  · rename_i more heq
    rw [h more heq]
  · rfl

theorem numericEscape?_joined (high low : HexDigits) {joined : CodePoint} {rest : Text}
    (hrest : rest ≠ []) (h : high.point.join? low.point = some joined) :
    numericEscape? (high.text ++ .char '\\' :: .char 'u' :: (low.text ++ rest)) =
      some (joined, 10) := by
  obtain ⟨c, behind, rfl⟩ := List.exists_cons_of_ne_nil hrest
  have hdrop : (high.text ++ .char '\\' :: .char 'u' :: (low.text ++ c :: behind)).drop 4 =
      .char '\\' :: .char 'u' :: (low.text ++ c :: behind) := rfl
  simp only [numericEscape?, fourDigits?_digits, hdrop, Option.bind_eq_bind, Option.bind_some, h]

theorem charactersText_append_ne_nil (cs : List Character) (rest : Text) :
    charactersText cs ++ .char '"' :: rest ≠ [] := by simp

/-- Two numeric escapes in a row that do not belong together are taken one by one. -/
theorem numericEscape?_apart {high low : HexDigits} (h : high.point.join? low.point = none)
    (others : List Character) (rest : Text) :
    numericEscape? (high.text ++ (charactersText (.numeric low :: others) ++ .char '"' :: rest)) =
      some (high.point, 4) := by
  refine numericEscape?_alone high (charactersText_append_ne_nil _ _) fun more hmore => ?_
  obtain ⟨c, behind, hbehind⟩ :=
    List.exists_cons_of_ne_nil (charactersText_append_ne_nil others rest)
  have hlow : more = low.text ++ (charactersText others ++ .char '"' :: rest) :=
    (List.cons.inj (List.cons.inj hmore).2).2.symm
  rw [hlow, hbehind, fourDigits?_digits, Option.bind_some, h]

/-- A numeric escape with no other one behind it is taken for itself. -/
theorem numericEscape?_last (digits : HexDigits) {others : List Character}
    (h : ∀ low more, others ≠ .numeric low :: more) (rest : Text) :
    numericEscape? (digits.text ++ (charactersText others ++ .char '"' :: rest)) =
      some (digits.point, 4) := by
  refine numericEscape?_alone digits (charactersText_append_ne_nil _ _) fun more hmore => ?_
  -- What follows would begin with an escape of the letter `u`, which only a numeric one does.
  cases others with
  | nil => cases hmore
  | cons c others =>
    cases c with
    | plain c _ _ noBackslash => exact absurd (List.cons.inj hmore).1 noBackslash
    | letter name meaning known =>
      have hname : name = 'u' := by
        injection (List.cons.inj (List.cons.inj hmore).2).1
      rw [hname] at known
      simp [escapes] at known
    | numeric low => exact absurd rfl (h low others)

/-- Behind a numeric escape that stands alone the other characters are read. -/
theorem charactersFrom_alone {digits : HexDigits} {others : List Character} {rest : Text}
    (h : numericEscape? (digits.text ++ (charactersText others ++ .char '"' :: rest)) =
      some (digits.point, 4)) :
    charactersFrom opening 0 (charactersText (.numeric digits :: others) ++ .char '"' :: rest) =
      (charactersFrom opening 0 (charactersText others ++ .char '"' :: rest)).map
        fun (s, left) => (digits.point :: s, left) := by
  show charactersFrom opening 0 (.char '\\' :: .char 'u' ::
    (digits.text ++ (charactersText others ++ .char '"' :: rest))) = _
  rw [charactersFrom_point (element_numeric h)]
  rfl

/-- The characters of a string are read as what they denote. -/
theorem charactersFrom_characters (cs : List Character) (rest : Text) :
    charactersFrom opening 0 (charactersText cs ++ .char '"' :: rest) = .ok (content cs, rest) := by
  fun_induction content cs with
  | case1 => rfl
  | case2 c visible noQuote noBackslash others ih =>
    show charactersFrom opening 0 (c :: (charactersText others ++ .char '"' :: rest)) = _
    rw [charactersFrom_point (element_plain visible noQuote noBackslash _), List.drop_zero, ih]
    rfl
  | case3 name meaning known others ih =>
    show charactersFrom opening 0
      (.char '\\' :: .char name :: (charactersText others ++ .char '"' :: rest)) = _
    rw [charactersFrom_point (element_letter known _), List.drop_one, List.tail_cons, ih]
    rfl
  | case4 high low others joined hjoined ih =>
    have hescape :=
      numericEscape?_joined high low (charactersText_append_ne_nil others rest) hjoined
    show charactersFrom opening 0 (.char '\\' :: .char 'u' :: (high.text ++ .char '\\' ::
      .char 'u' :: (low.text ++ (charactersText others ++ .char '"' :: rest)))) = _
    rw [charactersFrom_point (element_numeric hescape)]
    show (charactersFrom opening 0 (charactersText others ++ .char '"' :: rest)).map _ = _
    rw [ih]
    rfl
  | case5 high low others hnone ih =>
    rw [charactersFrom_alone (numericEscape?_apart hnone others rest), ih]
    rfl
  | case6 digits others hother ih =>
    rw [charactersFrom_alone (numericEscape?_last digits hother rest), ih]
    rfl

/-- What the reader takes for a string is one. -/
theorem exists_characters {s t left : Text} (h : charactersFrom opening 0 s = .ok (t, left)) :
    ∃ cs, s = charactersText cs ++ .char '"' :: left := by
  induction hn : s.length using Nat.strongRecOn generalizing s t with
  | ind n ih =>
    cases s with
    | nil => cases h
    | cons c rest =>
      cases helement : element opening c rest with
      | error fault =>
        rw [charactersFrom, helement] at h
        cases h
      | ok e =>
        cases e with
        | close =>
          rw [charactersFrom, helement] at h
          cases h
          exact ⟨[], by rw [eq_quote_of_close helement]; rfl⟩
        | point p more =>
          rw [charactersFrom_point helement] at h
          obtain ⟨cs, hcs⟩ := exists_element helement
          cases hothers : charactersFrom opening 0 (rest.drop more) with
          | error fault =>
            rw [hothers] at h
            cases h
          | ok read =>
            rw [hothers] at h
            cases h
            have hshorter : (rest.drop more).length < n := by
              rw [List.length_cons] at hn
              rw [List.length_drop]
              omega
            obtain ⟨others, hs⟩ := ih _ hshorter hothers rfl
            refine ⟨cs ++ others, ?_⟩
            rw [hcs, hs]
            simp [charactersText]

theorem charactersFrom_eq_ok_iff {s t left : Text} :
    charactersFrom opening 0 s = .ok (t, left) ↔
      ∃ cs, s = charactersText cs ++ .char '"' :: left ∧ content cs = t := by
  constructor
  · intro h
    obtain ⟨cs, rfl⟩ := exists_characters h
    rw [charactersFrom_characters] at h
    cases h
    exact ⟨cs, rfl, rfl⟩
  · rintro ⟨cs, rfl, rfl⟩
    exact charactersFrom_characters cs left

theorem element_eq_error {c : CodePoint} {rest : Text} {fault : Fault}
    (h : element opening c rest = .error fault) : ∃ flaw left, fault = .malformed flaw left := by
  unfold element at h
  split at h
  · cases h
  · split at h
    · cases h
      exact ⟨_, _, rfl⟩
    · split at h <;> cases h
      exact ⟨_, _, rfl⟩
    · split at h <;> cases h
      exact ⟨_, _, rfl⟩
  · split at h <;> cases h
    exact ⟨_, _, rfl⟩

/-- A string that cannot be read is malformed; no other fault shows in it. -/
theorem charactersFrom_eq_error {skip : Nat} {s : Text} {fault : Fault}
    (h : charactersFrom opening skip s = .error fault) :
    ∃ flaw left, fault = .malformed flaw left := by
  induction s generalizing skip with
  | nil =>
    cases skip <;>
    · cases h
      exact ⟨_, _, rfl⟩
  | cons c rest ih =>
    cases skip with
    | succ skip => exact ih h
    | zero =>
      rw [charactersFrom] at h
      split at h
      · rename_i helement
        cases h
        exact element_eq_error helement
      · cases h
      · split at h
        · rename_i hothers
          cases h
          exact ih hothers
        · cases h

end TextTidy.Json
