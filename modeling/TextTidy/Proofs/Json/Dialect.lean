import TextTidy.Proofs.Json.Derived

/-!
# What either dialect reads

The lenient dialect has three words more than the grammar, for infinities and for what is no number.
They can stand wherever a value can, so what is read in a dialect is described level by level: with
no level left a value is a scalar, and an array or an object lists values of one level less.
-/

namespace TextTidy.Json

namespace Grammar

/-- A text that lists some things, at least one, with commas between them and spacing around
    each. -/
inductive Listed {α : Type} (P : Text → α → Prop) : Text → List α → Prop
  | last {body : Text} {a : α} (before behind : List Space) (h : P body a) :
      Listed P (spacing before ++ body ++ spacing behind) [a]
  | more {body rest : Text} {a : α} {as : List α} (before behind : List Space) (h : P body a)
      (hrest : Listed P rest as) :
      Listed P (spacing before ++ body ++ spacing behind ++ .char ',' :: rest) (a :: as)

/-- A text that spells a key and the value that belongs to it. -/
inductive Paired (P : Text → Value → Prop) : Text → Text × Value → Prop
  | mk {body : Text} {v : Value} (key : List Character) (behindKey beforeItem : List Space)
      (h : P body v) : Paired P (keyText [] key behindKey beforeItem ++ body) (content key, v)

/-- A text that spells a value that is neither an array nor an object: one of the grammar, or a word
    of the dialect. -/
inductive Scalar (dialect : Dialect) : Text → Value → Prop
  | tree {t : Tree} (h : t.Fits 0) : Scalar dialect t.text t.value
  | constant {word : Constant} {v : Value} (h : dialect.constant? word = some v) :
      Scalar dialect (Text.ofString word.name) v

/-- A text that spells an array or an object. -/
inductive Container (P : Text → Value → Prop) : Text → Value → Prop
  | emptyArray (gap : List Space) : Container P (.char '[' :: spacing gap ++ [.char ']']) (.list [])
  | array {body : Text} {vs : List Value} (h : Listed P body vs) :
      Container P (.char '[' :: body ++ [.char ']']) (.list vs)
  | emptyObject (gap : List Space) : Container P (.char '{' :: spacing gap ++ [.char '}']) (.obj [])
  | object {body : Text} {pairs : List (Text × Value)} (h : Listed (Paired P) body pairs) :
      Container P (.char '{' :: body ++ [.char '}']) (.obj (settled pairs))

/-- Whether a text spells a value in a dialect, in which so many arrays and objects at most are open
    at once. -/
def Spells (dialect : Dialect) : (levels : Nat) → Text → Value → Prop
  | 0 => Scalar dialect
  | levels + 1 => fun s v => Scalar dialect s v ∨ Container (Spells dialect levels) s v

end Grammar

open Grammar

/-- A reader takes from the start of a text what is written in a certain way, and nothing else. -/
structure Reads {α : Type} (read : Text → Except Fault (α × Text)) (P : Text → α → Prop) :
    Prop where
  opens {body : Text} {a : α} (h : P body a) (rest : Text) : Opens (body ++ rest)
  written {s left : Text} {a : α} (h : read s = .ok (a, left)) : ∃ body, s = body ++ left ∧ P body a
  taken {body rest : Text} {a : α} (h : P body a) (hrest : NumberEnds rest) :
    read (body ++ rest) = .ok (a, rest)

variable {dialect : Dialect} {levels : Nat} {s body left rest : Text} {v : Value}

/-! ## Lists -/

section Lists

variable {α : Type} {close : Char} {again : Text → Except Fault (List α × Text)}
  {element : Text → Except Fault (α × Text)} {P : Text → α → Prop} {as : List α}

/-- Behind the spacing a list begins with its first element. -/
theorem Reads.exists_first (hreads : Reads element P) (h : Listed P body as) (rest : Text) :
    ∃ first a behind, P first a ∧ skipSpacing (body ++ rest) = first ++ behind := by
  cases h with
  | last before behind h =>
    rw [List.append_assoc, List.append_assoc, skipSpacing_opens before (hreads.opens h _)]
    exact ⟨_, _, _, h, rfl⟩
  | more before behind h _ =>
    rw [List.append_assoc, List.append_assoc, List.append_assoc,
      skipSpacing_opens before (hreads.opens h _)]
    exact ⟨_, _, _, h, rfl⟩

variable (hreads : Reads element P)
  (hseq : ∀ s, again s = (element s).bind (behindElement close again))
  (hclose : close = ']' ∨ close = '}')

include hreads hseq hclose

theorem Reads.exists_listed (h : again s = .ok (as, left)) (before : List Space) :
    ∃ body, spacing before ++ s = body ++ .char close :: left ∧ Listed P body as := by
  have hcomma : close ≠ ',' := by rcases hclose with rfl | rfl <;> decide
  induction as generalizing s before with
  | nil =>
    obtain ⟨a, behind, -, ⟨-, has⟩ | ⟨rest, others, -, -, has⟩⟩ := sequence_eq_ok hseq hcomma h <;>
      cases has
  | cons a as ih =>
    obtain ⟨a', behind, hread, hcases⟩ := sequence_eq_ok hseq hcomma h
    obtain ⟨body, rfl, hbody⟩ := hreads.written hread
    obtain ⟨gap, hgap⟩ := exists_spacing behind
    rcases hcases with ⟨hend, has⟩ | ⟨rest, others, hnext, hrest, has⟩
    · cases has
      exact ⟨_, by rw [hgap, hend]; simp, .last before gap hbody⟩
    · cases has
      obtain ⟨gap', hgap'⟩ := exists_spacing rest
      obtain ⟨others', hothers, hlisted⟩ := ih hrest gap'
      exact ⟨_, by rw [hgap, hnext, hgap', hothers]; simp, .more before gap hbody hlisted⟩

theorem Reads.listed (h : Listed P body as) (rest : Text) :
    again (skipSpacing (body ++ .char close :: rest)) = .ok (as, rest) := by
  have hcomma : close ≠ ',' := by rcases hclose with rfl | rfl <;> decide
  have hspacing : isSpacing (.char close) = false := by rcases hclose with rfl | rfl <;> decide
  induction h with
  | last before behind hbody =>
    rw [List.append_assoc, List.append_assoc, skipSpacing_opens before (hreads.opens hbody _),
      sequence_of_ok hseq (hreads.taken hbody (numberEnds_gap behind (Or.inr hclose) rest)),
      behindElement_close (skipSpacing_gap behind hspacing rest)]
  | more before behind hbody _ ih =>
    rw [List.append_assoc, List.append_assoc, List.append_assoc, List.cons_append,
      skipSpacing_opens before (hreads.opens hbody _),
      sequence_of_ok hseq (hreads.taken hbody (numberEnds_gap behind (Or.inl rfl) _)),
      behindElement_comma hcomma (skipSpacing_gap behind rfl _), ih]
    rfl

end Lists

/-! ## Scalars -/

/-- A word for a value is derived by the grammar. -/
theorem exists_keyword (h : oneOf? keywords s = some (v, left)) :
    ∃ t : Tree, s = t.text ++ left ∧ t.value = v ∧ t.Fits 0 := by
  obtain ⟨word, hmem, hword⟩ := List.exists_of_findSome?_eq_some h
  obtain ⟨rest, hrest, heq⟩ := Option.map_eq_some_iff.mp hword
  cases heq
  have hs := Text.dropStart?_eq_some hrest
  simp only [keywords, List.mem_cons, List.not_mem_nil, or_false] at hmem
  rcases hmem with rfl | rfl | rfl
  · exact ⟨.null, hs, rfl, Nat.le_refl _, Nat.zero_le _⟩
  · exact ⟨.bool true, hs, rfl, Nat.le_refl _, Nat.zero_le _⟩
  · exact ⟨.bool false, hs, rfl, Nat.le_refl _, Nat.zero_le _⟩

theorem constant_text {word : Constant} (h : oneOf? constantWords s = some (word, left)) :
    s = Text.ofString word.name ++ left := by
  obtain ⟨entry, hmem, hentry⟩ := List.exists_of_findSome?_eq_some h
  obtain ⟨rest, hrest, heq⟩ := Option.map_eq_some_iff.mp hentry
  obtain ⟨found, -, rfl⟩ := List.mem_map.mp hmem
  cases heq
  exact Text.dropStart?_eq_some hrest

theorem exists_scalar (h : bare (scalar dialect s) = .ok (v, left)) :
    ∃ body, s = body ++ left ∧ Scalar dialect body v := by
  by_cases hquote : s.head? = some (.char '"')
  · cases s with
    | nil => cases hquote
    | cons c rest =>
      cases hquote
      rw [scalar_string] at h
      obtain ⟨⟨t, behind⟩, hread, heq⟩ := ok_of_map h
      cases heq
      obtain ⟨cs, hcs, rfl⟩ := charactersFrom_eq_ok_iff.mp hread
      refine ⟨stringText cs, ?_, .tree (t := .string cs) ⟨Nat.le_refl _, Nat.zero_le _⟩⟩
      rw [hcs]
      simp [stringText]
  · rw [scalar_other dialect hquote] at h
    split at h
    · rename_i hkeyword
      cases h
      obtain ⟨t, hs, rfl, hfits⟩ := exists_keyword hkeyword
      exact ⟨t.text, hs, .tree hfits⟩
    · split at h
      · rename_i hconstant
        split at h
        · rename_i hvalue
          cases h
          exact ⟨_, constant_text hconstant, .constant hvalue⟩
        · cases h
      · split at h
        · cases h
        · rename_i literal behind hnumber
          obtain ⟨n, hn, rfl⟩ := exists_number hnumber
          rw [literal_value] at h
          by_cases hlong : Text.maxIntegerDigits < n.integerLength
          · rw [if_pos hlong] at h
            cases h
          · rw [if_neg hlong] at h
            cases h
            exact ⟨n.text, hn, .tree (t := .number n) ⟨Nat.le_refl _, Nat.not_lt.mp hlong⟩⟩

theorem Grammar.Scalar.opens (h : Scalar dialect body v) (rest : Text) : Opens (body ++ rest) := by
  cases h with
  | tree h => exact opens_tree _ rest
  | constant h =>
    rename_i word
    cases word <;> exact opens_char (by decide) _

theorem value_of_scalar (h : Scalar dialect body v) (levels : Nat) (hrest : NumberEnds rest) :
    bare (value dialect levels (body ++ rest)) = .ok (v, rest) := by
  cases h with
  | tree h => exact value_tree _ ⟨Nat.le_trans h.1 (Nat.zero_le _), h.2⟩ hrest
  | constant h =>
    rename_i word
    obtain ⟨a, others, hcons, hquote, harray, hobject⟩ : ∃ a others,
        Text.ofString word.name ++ rest = .char a :: others ∧ a ≠ '"' ∧ a ≠ '[' ∧ a ≠ '{' := by
      cases word <;> exact ⟨_, _, rfl, by decide, by decide, by decide⟩
    have hhead : ∀ {b : Char}, a ≠ b →
        (Text.ofString word.name ++ rest).head? ≠ some (.char b) := by
      intro b hne heq
      rw [hcons] at heq
      exact hne (CodePoint.char.inj (Option.some.inj heq))
    have hkeyword : oneOf? keywords (Text.ofString word.name ++ rest) = none := by
      cases word <;> rfl
    have hconstant : oneOf? constantWords (Text.ofString word.name ++ rest) =
        some (word, rest) := by
      cases word <;> rfl
    rw [value_scalar (hhead harray) (hhead hobject), scalar_other dialect (hhead hquote), hkeyword,
      hconstant]
    simp only [h]

/-! ## Arrays and objects -/

/-- A key with its colon comes before an item, or else the text is malformed. -/
theorem pair_cases (item : Reader Value) (s : Text) :
    (∃ key gap beforeItem rest, s = keyText [] key gap beforeItem ++ rest ∧
      bare (pair item s) = (bare (item rest)).map fun (v, left) => ((content key, v), left)) ∨
      ∃ flaw left, bare (pair item s) = .error (.malformed flaw left) := by
  by_cases hquote : s.head? = some (.char '"')
  · cases s with
    | nil => cases hquote
    | cons c rest =>
      cases hquote
      rw [pair_quote]
      cases hread : charactersFrom (.char '"' :: rest) 0 rest with
      | error fault =>
        obtain ⟨flaw, left, rfl⟩ := charactersFrom_eq_error hread
        exact Or.inr ⟨flaw, left, rfl⟩
      | ok read =>
        obtain ⟨k, behind⟩ := read
        obtain ⟨key, hkey, rfl⟩ := charactersFrom_eq_ok_iff.mp hread
        obtain ⟨gap, hgap⟩ := exists_spacing behind
        show _ ∨ ∃ flaw left, behindKey item (content key, behind) = .error (.malformed flaw left)
        by_cases hcolon : ∃ rest, skipSpacing behind = .char ':' :: rest
        · obtain ⟨rest', hrest'⟩ := hcolon
          obtain ⟨beforeItem, hbefore⟩ := exists_spacing rest'
          refine Or.inl ⟨key, gap, beforeItem, skipSpacing rest', ?_, behindKey_colon hrest'⟩
          rw [key_text, hkey, ← hbefore, ← hrest', ← hgap]
        · exact Or.inr ⟨_, _, behindKey_other fun rest hrest => hcolon ⟨rest, hrest⟩⟩
  · exact Or.inr ⟨_, _, pair_other item hquote⟩

section Containers

variable {item : Reader Value} {P : Text → Value → Prop}
  (hreads : Reads (fun s => bare (item s)) P)

include hreads

theorem Reads.paired : Reads (fun s => bare (pair item s)) (Paired P) where
  opens h rest := by
    cases h with
    | mk key gap beforeItem h =>
      rw [List.append_assoc]
      exact opens_key key gap beforeItem _
  written {s left member} h := by
    rcases pair_cases item s with ⟨key, gap, beforeItem, rest, hs, hpair⟩ | ⟨flaw, behind, hpair⟩
    · rw [hpair] at h
      obtain ⟨⟨v, behind⟩, hread, heq⟩ := ok_of_map h
      cases heq
      obtain ⟨body, rfl, hbody⟩ := hreads.written hread
      exact ⟨_, by rw [hs, List.append_assoc], .mk key gap beforeItem hbody⟩
    · rw [hpair] at h
      cases h
  taken h hrest := by
    cases h with
    | mk key gap beforeItem h =>
      rw [List.append_assoc, pair_key item key gap beforeItem (hreads.opens h _),
        hreads.taken h hrest]
      rfl

theorem Reads.exists_array (h : bare (array item s) = .ok (v, left)) :
    ∃ body, .char '[' :: s = body ++ left ∧ Container P body v := by
  obtain ⟨gap, hgap⟩ := exists_spacing s
  by_cases hend : ∃ rest, skipSpacing s = .char ']' :: rest
  · obtain ⟨rest, hrest⟩ := hend
    rw [array_close item hrest] at h
    cases h
    exact ⟨_, by rw [hgap, hrest]; simp, .emptyArray gap⟩
  · rw [array_items item fun rest hrest => hend ⟨rest, hrest⟩] at h
    obtain ⟨⟨vs, behind⟩, hread, heq⟩ := ok_of_map h
    cases heq
    obtain ⟨body, hbody, hlisted⟩ := hreads.exists_listed (items_eq item) (Or.inl rfl) hread gap
    exact ⟨_, by rw [hgap, hbody]; simp, .array hlisted⟩

theorem Reads.exists_object (h : bare (object item s) = .ok (v, left)) :
    ∃ body, .char '{' :: s = body ++ left ∧ Container P body v := by
  obtain ⟨gap, hgap⟩ := exists_spacing s
  by_cases hend : ∃ rest, skipSpacing s = .char '}' :: rest
  · obtain ⟨rest, hrest⟩ := hend
    rw [object_close item hrest] at h
    cases h
    exact ⟨_, by rw [hgap, hrest]; simp, .emptyObject gap⟩
  · rw [object_pairs item fun rest hrest => hend ⟨rest, hrest⟩] at h
    obtain ⟨⟨pairs, behind⟩, hread, heq⟩ := ok_of_map h
    cases heq
    obtain ⟨body, hbody, hlisted⟩ :=
      hreads.paired.exists_listed (pairs_eq item) (Or.inr rfl) hread gap
    rw [members_eq_settled]
    exact ⟨_, by rw [hgap, hbody]; simp, .object hlisted⟩

end Containers

/-- The text of an array or an object is read as what it spells, one level further in. -/
theorem Reads.container {P : Text → Value → Prop}
    (hreads : Reads (fun s => bare (value dialect levels s)) P) (h : Container P body v)
    (rest : Text) : bare (value dialect (levels + 1) (body ++ rest)) = .ok (v, rest) := by
  have hwhole : ∀ (opening closing : CodePoint) (inside : Text),
      opening :: inside ++ [closing] ++ rest = opening :: (inside ++ closing :: rest) := by
    intro opening closing inside
    simp
  cases h with
  | emptyArray gap => rw [hwhole, value_array, array_close _ (skipSpacing_gap gap rfl rest)]
  | array h =>
    obtain ⟨first, a, behind, hfirst, hskip⟩ := hreads.exists_first h (.char ']' :: rest)
    rw [hwhole, value_array, array_items _ (hskip ▸ (hreads.opens hfirst behind).ne_close),
      hreads.listed (items_eq _) (Or.inl rfl) h]
    rfl
  | emptyObject gap => rw [hwhole, value_object, object_close _ (skipSpacing_gap gap rfl rest)]
  | object h =>
    obtain ⟨first, a, behind, hfirst, hskip⟩ := hreads.paired.exists_first h (.char '}' :: rest)
    have hclose : ∀ left, first ++ behind ≠ .char '}' :: left := by
      cases hfirst with
      | mk key gap beforeItem _ =>
        rw [List.append_assoc]
        exact key_ne_close key gap beforeItem _
    rw [hwhole, value_object, object_pairs _ (hskip ▸ hclose),
      hreads.paired.listed (pairs_eq _) (Or.inr rfl) h]
    show Except.ok (Value.obj (members _), rest) = _
    rw [members_eq_settled]

/-! ## Values -/

/-- What is read as a value is what spells one. -/
theorem value_reads (dialect : Dialect) (levels : Nat) :
    Reads (fun s => bare (value dialect levels s)) (Spells dialect levels) := by
  -- inside an array or an object one level less is left, so the induction is on the levels
  induction levels with
  | zero =>
    refine ⟨Scalar.opens, fun {s left v} h => ?_, fun h => value_of_scalar h 0⟩
    by_cases hopen : s.head? = some (.char '[') ∨ s.head? = some (.char '{')
    · rw [value_zero hopen] at h
      cases h
    · obtain ⟨harray, hobject⟩ := not_or.mp hopen
      rw [value_scalar harray hobject] at h
      exact exists_scalar h
  | succ levels ih =>
    refine ⟨fun h rest => ?_, fun {s left v} h => ?_, fun {body rest v} h hrest => ?_⟩
    · rcases h with h | h
      · exact h.opens rest
      · cases h <;> exact opens_char (by decide) _
    · by_cases harray : s.head? = some (.char '[')
      · cases s with
        | nil => cases harray
        | cons c rest =>
          cases harray
          rw [value_array] at h
          obtain ⟨body, hs, hbody⟩ := ih.exists_array h
          exact ⟨body, hs, Or.inr hbody⟩
      · by_cases hobject : s.head? = some (.char '{')
        · cases s with
          | nil => cases hobject
          | cons c rest =>
            cases hobject
            rw [value_object] at h
            obtain ⟨body, hs, hbody⟩ := ih.exists_object h
            exact ⟨body, hs, Or.inr hbody⟩
        · rw [value_scalar harray hobject] at h
          obtain ⟨body, hs, hbody⟩ := exists_scalar h
          exact ⟨body, hs, Or.inl hbody⟩
    · rcases h with h | h
      · exact value_of_scalar h _ hrest
      · exact ih.container h rest

/-- A document holds one value, with spacing around it. -/
theorem document_eq_ok_iff :
    document dialect levels s = .ok v ↔
      ∃ before body behind, s = spacing before ++ body ++ spacing behind ∧
        Spells dialect levels body v := by
  have hreads := value_reads dialect levels
  rw [document_eq]
  constructor
  · intro h
    split at h
    · cases h
    · cases hread : bare (value dialect levels (skipSpacing s)) with
      | error fault =>
        rw [hread] at h
        cases h
      | ok read =>
        obtain ⟨v', left⟩ := read
        rw [hread] at h
        change (if (skipSpacing left).isEmpty then Except.ok v' else _) = _ at h
        split at h
        · rename_i hempty
          cases h
          obtain ⟨body, hs, hbody⟩ := hreads.written hread
          obtain ⟨before, hbefore⟩ := exists_spacing s
          obtain ⟨behind, hbehind⟩ := exists_spacing left
          rw [List.isEmpty_iff.mp hempty, List.append_nil] at hbehind
          exact ⟨before, body, behind, by rw [hbefore, hs, ← hbehind, List.append_assoc], hbody⟩
        · cases h
  · rintro ⟨before, body, behind, rfl, hbody⟩
    have hopens := hreads.opens hbody (spacing behind)
    have hends : NumberEnds (spacing behind) := by
      have := numberEnds_spacing behind numberEnds_nil
      rwa [List.append_nil] at this
    have hbehind : skipSpacing (spacing behind) = [] := by
      have := skipSpacing_spacing behind []
      rwa [List.append_nil] at this
    have hread :
        bare (value dialect levels (body ++ spacing behind)) = .ok (v, spacing behind) :=
      hreads.taken hbody hends
    rw [List.append_assoc, if_neg (hopens.head_ne_mark before), skipSpacing_opens before hopens,
      hread]
    show (if (skipSpacing (spacing behind)).isEmpty then Except.ok v else _) = _
    rw [hbehind]
    rfl

/-! ## Objects -/

theorem Grammar.Scalar.ne_obj (h : Scalar dialect body v) (ms : List (Text × Value)) :
    v ≠ .obj ms := by
  intro hv
  cases h with
  | tree hfits =>
    rename_i t
    cases t with
    | number n =>
      rw [Tree.value, Number.value] at hv
      split at hv <;> cases hv
    | emptyObject gap => exact absurd hfits.1 (by simp [Tree.depth])
    | object members => exact absurd hfits.1 (by simp [Tree.depth])
    | _ => cases hv
  | constant h =>
    rename_i word
    subst hv
    cases dialect <;> cases word <;> cases h

/-- However often a key is written, an object has it once. -/
theorem Grammar.Spells.nodup {ms : List (Text × Value)}
    (h : Spells dialect levels body (.obj ms)) : (ms.map Prod.fst).Nodup := by
  cases levels with
  | zero => exact absurd rfl (Scalar.ne_obj h ms)
  | succ levels =>
    rcases h with h | h
    · exact absurd rfl (h.ne_obj ms)
    · cases h with
      | emptyObject gap => exact List.nodup_nil
      | object h => exact nodup_settled _

end TextTidy.Json
