import TextTidy.Proofs.Json.Place
import TextTidy.Proofs.Scan

/-!
# Where a rejected constant stands

The reader tells which word it has met, and a scan that knows nothing of JSON but strings and such
words looks for the place. It finds the one that the reader means: whatever the reader passes on its
way holds no such word outside strings, and both of them find the ends of strings alike.
-/

namespace TextTidy.Json

open Grammar

/-! ## Inside and outside strings -/

/-- Where a place lies: outside all strings, inside one, or behind a backslash inside one. -/
inductive Lexing where
  | outside
  | inside
  | escaped
deriving DecidableEq, Repr

/-- Where the place behind a character lies. -/
def Lexing.step : Lexing → CodePoint → Lexing
  | outside, c => if c = .char '"' then inside else outside
  | inside, c => if c = .char '"' then outside else if c = .char '\\' then escaped else inside
  | escaped, _ => inside

/-- Where the end of a text lies. -/
def lexing (s : Text) : Lexing := s.foldl Lexing.step .outside

/-- A character that neither ends a string nor begins an escape. -/
def Ordinary (c : CodePoint) : Prop := c ≠ .char '"' ∧ c ≠ .char '\\'

theorem ordinary_of_mem {d : HexDigits} {c : CodePoint} (hc : c ∈ d.text) : Ordinary c := by
  obtain ⟨x, rfl⟩ := exists_hexDigit_of_mem hc
  exact ⟨x.ne_char (by decide), x.ne_char (by decide)⟩

theorem foldl_step_ordinary {s : Text} (h : ∀ c ∈ s, Ordinary c) :
    s.foldl Lexing.step .inside = .inside := by
  induction s with
  | nil => rfl
  | cons c s ih =>
    obtain ⟨⟨hquote, hbackslash⟩, hs⟩ := List.forall_mem_cons.mp h
    rw [List.foldl_cons, Lexing.step, if_neg hquote, if_neg hbackslash, ih hs]

theorem foldl_step_character (c : Character) : c.text.foldl Lexing.step .inside = .inside := by
  cases c with
  | plain c _ noQuote noBackslash =>
    exact foldl_step_ordinary (List.forall_mem_singleton.mpr ⟨noQuote, noBackslash⟩)
  | letter name meaning known => rfl
  | numeric digits =>
    show digits.text.foldl Lexing.step .inside = .inside
    exact foldl_step_ordinary fun _ => ordinary_of_mem

theorem foldl_step_characters (cs : List Character) :
    (charactersText cs).foldl Lexing.step .inside = .inside := by
  induction cs with
  | nil => rfl
  | cons c cs ih =>
    rw [charactersText, List.flatMap_cons, List.foldl_append, foldl_step_character]
    exact ih

/-! ## The ends of strings -/

theorem closingQuote?_ordinary {s : Text} (h : ∀ c ∈ s, Ordinary c) (rest : Text) :
    closingQuote? (s ++ rest) = (closingQuote? rest).map (· + s.length) := by
  induction s with
  | nil => simp
  | cons c s ih =>
    obtain ⟨⟨hquote, hbackslash⟩, hs⟩ := List.forall_mem_cons.mp h
    rw [List.cons_append, closingQuote?, ih hs, Option.map_map]
    · rfl
    · exact hquote
    · exact hbackslash

theorem closingQuote?_character (c : Character) (rest : Text) :
    closingQuote? (c.text ++ rest) = (closingQuote? rest).map (· + c.text.length) := by
  cases c with
  | plain c _ noQuote noBackslash =>
    exact closingQuote?_ordinary (List.forall_mem_singleton.mpr ⟨noQuote, noBackslash⟩) rest
  | letter name meaning known =>
    have hname : ∀ pair ∈ escapes, CodePoint.char pair.1 ≠ .char '\n' := by decide
    show closingQuote? (.char '\\' :: .char name :: rest) = _
    rw [closingQuote?, if_neg (hname _ known)]
    rfl
  | numeric digits =>
    show closingQuote? (.char '\\' :: .char 'u' :: (digits.text ++ rest)) = _
    rw [closingQuote?, if_neg (by decide), closingQuote?_ordinary fun _ => ordinary_of_mem,
      Option.map_map]
    rfl

/-- The scan finds the end of a string where the grammar has it. -/
theorem closingQuote?_characters (cs : List Character) (rest : Text) :
    closingQuote? (charactersText cs ++ .char '"' :: rest) =
      some ((charactersText cs).length + 1) := by
  induction cs with
  | nil => rfl
  | cons c cs ih =>
    have htext : charactersText (c :: cs) = c.text ++ charactersText cs := rfl
    rw [htext, List.append_assoc, closingQuote?_character, ih, List.length_append]
    simp
    omega

/-! ## Texts without a word -/

/-- A text in which no word for a number that JSON does not have stands outside the strings,
whatever is behind the text. -/
inductive Wordless : Text → Prop
  | nil : Wordless []
  | char {c : CodePoint} {s : Text} (hquote : c ≠ .char '"')
      (hword : ∀ rest, oneOf? constantWords (c :: (s ++ rest)) = none) (hs : Wordless s) :
      Wordless (c :: s)
  | string (cs : List Character) {s : Text} (hs : Wordless s) : Wordless (stringText cs ++ s)

theorem Wordless.append {s t : Text} (hs : Wordless s) (ht : Wordless t) : Wordless (s ++ t) := by
  induction hs with
  | nil => exact ht
  | @char c s hquote hword _ ih =>
    rw [List.cons_append]
    refine .char hquote (fun rest => ?_) ih
    rw [List.append_assoc]
    exact hword (t ++ rest)
  | string cs _ ih =>
    rw [List.append_assoc]
    exact .string cs ih

theorem Wordless.lexing_eq {s : Text} (h : Wordless s) : lexing s = .outside := by
  induction h with
  | nil => rfl
  | char hquote _ _ ih =>
    rw [lexing, List.foldl_cons, Lexing.step, if_neg hquote]
    exact ih
  | @string cs s _ ih =>
    have htext : stringText cs ++ s = .char '"' :: (charactersText cs ++ .char '"' :: s) := by
      simp [stringText]
    rw [htext, lexing, List.foldl_cons, List.foldl_append]
    show List.foldl Lexing.step ((charactersText cs).foldl Lexing.step .inside) _ = _
    rw [foldl_step_characters]
    exact ih

/-- The scan passes such a text. -/
theorem Wordless.beforeConstant?_append {s : Text} (h : Wordless s) (rest : Text) :
    beforeConstant? (token.pieces (s ++ rest)) =
      (beforeConstant? (token.pieces rest)).map (· + s.length) := by
  have hbefore : ∀ before c rest, token before c rest = token none c rest := fun _ _ _ => rfl
  induction h with
  | nil => simp
  | @char c s hquote hword _ ih =>
    have hnone : token none c (s ++ rest) = none := by
      rw [token, if_neg hquote, hword]
      rfl
    rw [List.cons_append, Pattern.pieces, Pattern.piecesFrom_of_none hnone,
      Pattern.piecesFrom_before hbefore, beforeConstant?, ih, Option.map_map]
    rfl
  | @string cs s _ ih =>
    have htext : stringText cs ++ s ++ rest =
        .char '"' :: (charactersText cs ++ .char '"' :: (s ++ rest)) := by
      simp [stringText]
    have htoken : token none (.char '"') (charactersText cs ++ .char '"' :: (s ++ rest)) =
        some ⟨(charactersText cs).length + 1, .quoted ((charactersText cs).length + 2)⟩ := by
      rw [token, if_pos rfl, closingQuote?_characters]
      rfl
    have hbehind : (charactersText cs ++ .char '"' :: (s ++ rest)).drop
        ((charactersText cs).length + 1) = s ++ rest := by
      rw [List.drop_length_add_append, List.drop_succ_cons, List.drop_zero]
    rw [htext, Pattern.pieces, Pattern.piecesFrom_of_some htoken, Pattern.piecesFrom_drop, hbehind,
      Pattern.piecesFrom_before hbefore, beforeConstant?, ih, Option.map_map]
    refine Option.map_congr fun n _ => ?_
    simp [stringText]
    omega

/-! ## What the grammar derives -/

/-- Whether a character is no quote and begins no word. -/
def Silent (c : CodePoint) : Prop :=
  c ≠ .char '"' ∧ c ≠ .char 'N' ∧ c ≠ .char 'I' ∧ c ≠ .char '-'

instance (c : CodePoint) : Decidable (Silent c) := inferInstanceAs (Decidable (_ ∧ _))

theorem oneOf?_constantWords (c : CodePoint) (s : Text) (hnan : c ≠ .char 'N')
    (hinfinity : c ≠ .char 'I') (hnegative : Text.dropStart? "-Infinity".toList (c :: s) = none) :
    oneOf? constantWords (c :: s) = none := by
  refine oneOf?_eq_none ?_
  simp only [constantWords, Constant.all, Constant.name, List.map_cons, List.forall_mem_cons]
  exact ⟨dropStart?_of_ne hnan, dropStart?_of_ne hinfinity, hnegative, by simp⟩

theorem Wordless.cons {c : CodePoint} {s : Text} (hc : Silent c) (hs : Wordless s) :
    Wordless (c :: s) := by
  obtain ⟨hquote, hnan, hinfinity, hminus⟩ := hc
  exact .char hquote
    (fun rest => oneOf?_constantWords c (s ++ rest) hnan hinfinity (dropStart?_of_ne hminus)) hs

theorem wordless_of_silent {s : Text} (h : ∀ c ∈ s, Silent c) : Wordless s := by
  induction s with
  | nil => exact .nil
  | cons c s ih =>
    obtain ⟨hc, hs⟩ := List.forall_mem_cons.mp h
    exact .cons hc (ih hs)

theorem wordless_spacing (gap : List Space) : Wordless (spacing gap) := by
  refine wordless_of_silent fun c hc => ?_
  obtain ⟨space, -, rfl⟩ := List.mem_map.mp hc
  cases space <;> decide

theorem silent_of_isDigit {c : CodePoint} (hc : isDigit c = true) : Silent c :=
  ⟨ne_of_isDigit hc rfl, ne_of_isDigit hc rfl, ne_of_isDigit hc rfl, ne_of_isDigit hc rfl⟩

theorem wordless_digits (digits : List Digit) : Wordless (digitsText digits) :=
  wordless_of_silent fun _ hc => silent_of_isDigit (isDigit_of_mem hc)

/-- A minus sign before a digit begins no word. -/
theorem Wordless.minus {d : CodePoint} {s : Text} (hd : isDigit d = true)
    (hs : Wordless (d :: s)) : Wordless (.char '-' :: d :: s) := by
  refine .char (by decide) (fun rest => ?_) hs
  refine oneOf?_constantWords _ _ (by decide) (by decide) ?_
  show Text.dropStart? "Infinity".toList (d :: (s ++ rest)) = none
  exact dropStart?_of_ne (ne_of_isDigit hd rfl)

theorem wordless_exponent (exponent : Option Exponent) : Wordless (exponentText exponent) := by
  cases exponent with
  | none => exact .nil
  | some e =>
    obtain ⟨capital, sign, digits⟩ := e
    have hdigits := wordless_digits digits.toList
    have hmark : ∀ capital : Bool, Silent (.char (if capital then 'E' else 'e')) := by decide
    refine .cons (hmark capital) ?_
    match sign with
    | none => exact hdigits
    | some false => exact .cons (by decide) hdigits
    | some true => exact .minus digits.first.property hdigits

theorem wordless_number (n : Number) : Wordless n.text := by
  have hwhole := wordless_digits n.whole.toList
  have hfraction : Wordless (fractionText n.fraction) := by
    cases n.fraction with
    | none => exact .nil
    | some digits => exact .cons (by decide) (wordless_digits digits.toList)
  have hsigned : Wordless (n.signText ++ digitsText n.whole.toList) := by
    rw [Number.signText]
    cases n.negative with
    | false => exact hwhole
    | true =>
      cases hw : n.whole with
      | zero => exact .minus rfl (wordless_digits Whole.zero.toList)
      | other first nonzero others =>
        exact .minus first.property (wordless_digits (Whole.other first nonzero others).toList)
  exact (hsigned.append hfraction).append (wordless_exponent n.exponent)

theorem wordless_string (cs : List Character) : Wordless (stringText cs) := by
  have h := Wordless.string cs .nil
  rwa [List.append_nil] at h

theorem wordless_key (before : List Space) (key : List Character)
    (behindKey beforeItem : List Space) :
    Wordless (keyText before key behindKey beforeItem) :=
  (((wordless_spacing before).append (wordless_string key)).append
    (wordless_spacing behindKey)).append (.cons (by decide) (wordless_spacing beforeItem))

theorem wordless_between {opening close : CodePoint} {s : Text} (hopening : Silent opening)
    (hclose : Silent close) (hs : Wordless s) : Wordless (opening :: s ++ [close]) :=
  .cons hopening (hs.append (.cons hclose .nil))

mutual

theorem wordless_tree : ∀ t : Tree, Wordless t.text
  | .null => wordless_of_silent (by decide)
  | .bool true => wordless_of_silent (by decide)
  | .bool false => wordless_of_silent (by decide)
  | .number n => wordless_number n
  | .string cs => wordless_string cs
  | .emptyArray gap => wordless_between (by decide) (by decide) (wordless_spacing gap)
  | .array items => wordless_between (by decide) (by decide) (wordless_items items)
  | .emptyObject gap => wordless_between (by decide) (by decide) (wordless_spacing gap)
  | .object members => wordless_between (by decide) (by decide) (wordless_members members)

theorem wordless_items : ∀ its : Items, Wordless its.text
  | .last before item behind =>
    ((wordless_spacing before).append (wordless_tree item)).append (wordless_spacing behind)
  | .more before item behind others =>
    (((wordless_spacing before).append (wordless_tree item)).append
      (wordless_spacing behind)).append (.cons (by decide) (wordless_items others))

theorem wordless_members : ∀ ms : Members, Wordless ms.text
  | .last before key behindKey beforeItem item behind =>
    ((wordless_key before key behindKey beforeItem).append (wordless_tree item)).append
      (wordless_spacing behind)
  | .more before key behindKey beforeItem item behind others =>
    (((wordless_key before key behindKey beforeItem).append (wordless_tree item)).append
      (wordless_spacing behind)).append (.cons (by decide) (wordless_members others))

end

theorem wordless_opening (o : Opening) : Wordless o.text := by
  cases o with
  | array done before =>
    cases done with
    | none => exact .cons (by decide) (wordless_spacing before)
    | some items =>
      exact .cons (by decide)
        ((wordless_items items).append (.cons (by decide) (wordless_spacing before)))
  | object done before key behindKey beforeItem =>
    have hkey := wordless_key before key behindKey beforeItem
    cases done with
    | none => exact .cons (by decide) hkey
    | some members =>
      exact .cons (by decide) ((wordless_members members).append (.cons (by decide) hkey))

/-! ## The word that the reader meets -/

variable {levels : Nat} {s left : Text} {word : Constant}

/-- What leads to a place holds no word. -/
theorem Reached.exists_wordless {P : Nat → Text → Prop} (h : Reached P levels s) :
    ∃ front rest levels', s = front ++ rest ∧ Wordless front ∧ P levels' rest := by
  induction h with
  | here h => exact ⟨[], _, _, rfl, .nil, h⟩
  | inside o _ _ ih =>
    obtain ⟨front, rest, levels', rfl, hfront, h⟩ := ih
    exact ⟨o.text ++ front, rest, levels', by simp, (wordless_opening o).append hfront, h⟩

/-- A word is rejected where it stands. -/
theorem FailsHere.exists_word (h : FailsHere (.constant word left) levels s) :
    s = left ∧ ∃ behind, oneOf? constantWords s = some (word, behind) := by
  cases h with
  | nesting _ hfault => cases hfault
  | scalar _ _ hread =>
    by_cases hquote : s.head? = some (.char '"')
    · cases s with
      | nil => cases hquote
      | cons c rest =>
        cases hquote
        rw [scalar_string] at hread
        obtain ⟨flaw, left', hfault⟩ := charactersFrom_eq_error (error_of_map hread)
        cases hfault
    · rw [scalar_other .strict hquote] at hread
      split at hread
      · cases hread
      · split at hread
        · rename_i behind hword
          cases hread
          exact ⟨rfl, behind, hword⟩
        · split at hread
          · cases hread
          · split at hread <;> cases hread

theorem exists_of_oneOf?_constantWords {behind : Text}
    (h : oneOf? constantWords s = some (word, behind)) : s = Text.ofString word.name ++ behind := by
  obtain ⟨entry, hmem, hentry⟩ := List.exists_of_findSome?_eq_some h
  obtain ⟨rest, hrest, heq⟩ := Option.map_eq_some_iff.mp hentry
  cases heq
  obtain ⟨word, -, rfl⟩ := List.mem_map.mp hmem
  exact Text.dropStart?_eq_some hrest

/-- The scan stops at a word. -/
theorem beforeConstant?_word {behind : Text} (h : oneOf? constantWords s = some (word, behind)) :
    beforeConstant? (token.pieces s) = some 0 := by
  cases s with
  | nil =>
    have hs := exists_of_oneOf?_constantWords h
    cases word <;> cases hs
  | cons c rest =>
    have hquote : c ≠ .char '"' := by
      rintro rfl
      have hs := exists_of_oneOf?_constantWords h
      cases word <;> cases hs
    have htoken : token none c rest = some ⟨rest.length - behind.length, .constant word⟩ := by
      rw [token, if_neg hquote, h]
      rfl
    rw [Pattern.pieces, Pattern.piecesFrom_of_some htoken, beforeConstant?]

/-- Where the reader of a document rejects a word, the scan finds it. -/
theorem exists_of_document_constant (h : document .strict levels s = .error (.constant word left)) :
    ∃ front, s = front ++ left ∧ Wordless front ∧ constantOffset s = front.length ∧
      Text.startsWith left (Text.ofString word.name) = true := by
  obtain ⟨gap, body, rfl, hreached⟩ := exists_of_document_error (fun _ _ => Fault.noConfusion) h
  obtain ⟨front, rest, levels, rfl, hfront, hfails⟩ := hreached.exists_wordless
  obtain ⟨rfl, behind, hword⟩ := hfails.exists_word
  have hwordless := (wordless_spacing gap).append hfront
  refine ⟨spacing gap ++ front, (List.append_assoc ..).symm, hwordless, ?_, ?_⟩
  · rw [constantOffset, ← List.append_assoc, hwordless.beforeConstant?_append,
      beforeConstant?_word hword]
    simp
  · rw [Text.startsWith, List.isPrefixOf_iff_prefix, exists_of_oneOf?_constantWords hword]
    exact List.prefix_append _ _

theorem exists_mark (s : Text) :
    ∃ mark, s = mark ++ withoutMark s ∧ lexing mark = .outside := by
  cases s with
  | nil => exact ⟨[], rfl, rfl⟩
  | cons c rest =>
    by_cases hc : c = byteOrderMark
    · subst hc
      exact ⟨[byteOrderMark], by rw [withoutMark, if_pos rfl]; rfl, by decide⟩
    · exact ⟨[], by rw [withoutMark, if_neg hc]; rfl, rfl⟩

theorem problem_eq_constant {problem : Problem}
    (h : problem.message = "Unexpected token " ++ word.name) : problem = .constant word := by
  cases problem with
  | flaw form => cases form <;> cases word <;> exact absurd h (by decide)
  | constant found =>
    cases found <;> cases word <;> first | rfl | exact absurd h (by decide)

/-- The place reported for a rejected word is the one at which the reader met it: what is left of
the text there begins with the word, lies outside all strings, and is what the reader had left when
it rejected the word. A byte order mark counts as a character. -/
theorem parse_constant_position {m : Malformation}
    (h : parse levels s = .error (.refused (.malformed m)))
    (hmessage : m.problem.message = "Unexpected token " ++ word.name) :
    ∃ front left, s = front ++ left ∧ front.length = m.position ∧
      Text.startsWith left (Text.ofString word.name) = true ∧ lexing front = .outside ∧
      document .strict levels (withoutMark s) = .error (.constant word left) := by
  have hproblem := problem_eq_constant hmessage
  have hblank : (withoutMark s).isBlank = false := by
    rw [← Bool.not_eq_true]
    intro hblank
    simp only [parse, hblank, if_true] at h
    cases h
  rw [parse_eq levels s hblank] at h
  split at h
  · cases h
  · cases h
    cases hproblem
  · rename_i hdocument
    cases h
    cases hproblem
    rename_i left
    obtain ⟨front, hs, hwordless, hoffset, hstarts⟩ := exists_of_document_constant hdocument
    obtain ⟨mark, hmark, houtside⟩ := exists_mark s
    refine ⟨mark ++ front, left, ?_, ?_, hstarts, ?_, hdocument⟩
    · rw [List.append_assoc, ← hs, ← hmark]
    · have hlen := congrArg List.length hmark
      rw [List.length_append] at hlen
      show _ = s.length - (withoutMark s).length + constantOffset (withoutMark s)
      rw [hoffset, List.length_append]
      omega
    · rw [lexing, List.foldl_append, ← lexing, houtside]
      exact hwordless.lexing_eq
  · cases h

/-- Behind a byte order mark and a string that holds a word, an escaped quote and a backslash. -/
theorem parse_constant_position_behind_string :
    ∃ m, parse 950 (byteOrderMark :: Text.ofString "[\"NaN\\\"\\\\\", NaN]") =
        .error (.refused (.malformed m)) ∧
      m.problem.message = "Unexpected token " ++ Constant.nan.name ∧ m.position = 13 ∧
      ∃ front left, byteOrderMark :: Text.ofString "[\"NaN\\\"\\\\\", NaN]" = front ++ left ∧
        front.length = m.position ∧
        Text.startsWith left (Text.ofString Constant.nan.name) = true ∧ lexing front = .outside ∧
        document .strict 950
            (withoutMark (byteOrderMark :: Text.ofString "[\"NaN\\\"\\\\\", NaN]")) =
          .error (.constant .nan left) := by
  have hposition : (match parse 950 (byteOrderMark :: Text.ofString "[\"NaN\\\"\\\\\", NaN]") with
      | .error (.refused (.malformed m)) => some (m.problem, m.position)
      | _ => none) = some (.constant .nan, 13) := by
    decide +kernel
  split at hposition
  · rename_i m hparse
    obtain ⟨hproblem, hplace⟩ := Prod.mk.inj (Option.some.inj hposition)
    have hmessage : m.problem.message = "Unexpected token " ++ Constant.nan.name := by
      rw [hproblem]
      rfl
    exact ⟨m, hparse, hmessage, hplace, parse_constant_position hparse hmessage⟩
  · cases hposition

end TextTidy.Json
